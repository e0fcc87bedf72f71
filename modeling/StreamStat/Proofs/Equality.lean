import StreamStat.Proofs.ValueOrder
import StreamStat.Proofs.Views

/-!
# Equality of accounts

Plain values can always be compared for equality, and what comes out depends on nothing but the two
of them (`compare_eq_of_isPlain`). Two accounts that keep plain extremes are therefore compared in
one way, in whatever store they are (`compare_of_isPlain`).
-/

namespace StreamStat

/-! ## Plain values -/

namespace Value

def isNaN : Value → Bool
  | number n _ => n.isNaN
  | _ => false

def equals : Value → Value → Bool
  | none, none => true
  | number m _, number n _ => m.eq n
  | text s _, text t _ => s = t
  | list as _, list bs _ => agreesAll as bs
  | _, _ => false

theorem compare_eq_of_isPlain (o : ObjectView) {v w : Value} (hv : v.isPlain = true) (hw : w.isPlain = true) :
    compare o .eq v w = .ok (ofBool (equals v w)) := by
  cases hl : isLike v w with
  | false =>
    rw [compare_unlike o .eq hv hw hl]
    cases v <;> cases w <;> first | rfl | cases hl
  | true =>
    cases v with
    | none =>
      cases w with
      | none => rfl
      | _ => cases hl
    | number m i =>
      cases w with
      | number n j => rw [compare_number, Number.compare_of_isPlain hv hw]; rfl
      | _ => cases hl
    | text s i =>
      cases w with
      | text t j =>
        rw [compare_text, equals]
        by_cases h : s = t <;> simp only [h, if_true, if_false, decide_true, decide_false] <;> rfl
      | _ => cases hl
    | list as i =>
      cases w with
      | list bs j =>
        have hitems : compareItems o .eq as bs = .ok (ofBool (agreesAll as bs)) :=
          compareItems_eq_of_isPlain o hv hw
        simp only [compare, hitems, equals]
        by_cases h : as.length = bs.length
        · simp [h]
        · have hn : agreesAll as bs = false := Bool.eq_false_iff.mpr fun ha => h (length_eq_of_agreesAll ha)
          rw [hn, if_pos (by simp [h, Relation.isOrder])]
          rfl
      | _ => cases hl
    | array g i => cases hv
    | handle i => cases hv

mutual

theorem same_self : ∀ v : Value, same v v = true
  | none => rfl
  | number n i => by simp [same]
  | text s i => by simp [same]
  | list items i => by simp [same, sameAll_self items]
  | array g i => by simp [same]
  | handle i => by simp [same]

theorem sameAll_self : ∀ vs : List Value, sameAll vs vs = true
  | [] => rfl
  | v :: vs => by simp [sameAll, same_self v, sameAll_self vs]

end

theorem equals_self {v : Value} (hv : v.isPlain = true) : equals v v = !v.isNaN := by
  cases v with
  | number n i =>
    simp only [equals, isNaN, Number.isNaN, Number.eq, Number.related]
    cases n.extended? <;> simp [Relation.ofExtended]
  | list items i => exact agreesAll_of_sameAll hv (sameAll_self items)
  | array g i => cases hv
  | handle i => cases hv
  | _ => simp [equals, isNaN]

end Value

theorem Double.eq_self (x : Double) : x.eq x = !x.isNaN := by
  cases x <;> simp [eq, le, isNaN]

/-! ## Accounts -/

namespace Body

def equals : Body → Body → Bool
  | .min x, .min y | .max x, .max y => x.equals y
  | .minMax x y, .minMax z w => x.equals z && y.equals w
  | .mean x, .mean y => x.eq y
  | .variance m, .variance n => m.mean.eq n.mean && m.spread.eq n.spread
  | .counter, .counter | .recorder _, .recorder _ | .view _ _, .view _ _ => true
  | _, _ => false

end Body

namespace Account

def KeepsPlain (a : Account) : Prop := ∀ v ∈ a.extremes, v.isPlain = true

def equals (a b : Account) : Bool := decide (a.title = b.title) && (decide (a.samples = b.samples) && a.body.equals b.body)

theorem compareStatistics_of_isPlain (o : ObjectView) {a b : Account} (ha : a.KeepsPlain) (hb : b.KeepsPlain) :
    compareStatistics o a b = .ok (.ofBool (a.body.equals b.body)) := by
  unfold KeepsPlain extremes at ha hb
  unfold compareStatistics
  cases ha' : a.body <;> cases hb' : b.body <;> try rfl
  all_goals
    simp only [ha', hb', List.mem_cons, List.not_mem_nil, or_false, forall_eq_or_imp, forall_eq] at ha hb
  case min.min => exact Value.compare_eq_of_isPlain o ha hb
  case max.max => exact Value.compare_eq_of_isPlain o ha hb
  case minMax.minMax x y z w =>
    simp only [Value.compare_eq_of_isPlain o ha.1 hb.1, Value.compare_eq_of_isPlain o ha.2 hb.2, Body.equals]
    show ((Value.ofBool (x.equals z)).truth >>= fun first =>
      if first then Except.ok (Value.ofBool (y.equals w)) else Except.ok (Value.ofBool (x.equals z))) = _
    rw [Value.truth_ofBool]
    cases x.equals z <;> rfl

/-- Accounts that keep plain extremes can always be compared. -/
theorem compare_of_isPlain (o : ObjectView) {a b : Account} (ha : a.KeepsPlain) (hb : b.KeepsPlain) :
    a.compare o b = .ok (.ofBool (a.equals b)) := by
  rw [compare, compareStatistics_of_isPlain o ha hb, equals]
  by_cases ht : a.title = b.title <;> by_cases hs : a.samples = b.samples <;> simp [ht, hs]

end Account

/-! ## Handles -/

namespace Store

/-- Two objects are compared by what they hold at the time, given whether they are the same one. -/
theorem compare_handles {s : Store} {i j : Nat} {x y : Object} (hx : s.object? i = some x) (hy : s.object? j = some y) :
    (Value.handle i).compare s.view .eq (.handle j) = x.compare (s.viewWithin s.objects.length) (i = j) y := by
  simp [Value.compare, Value.compareSingle, Value.compareHandles, view, viewWithin, hx, hy]

theorem compare_handles_ne {s : Store} {i j : Nat} {b : Bool}
    (h : (Value.handle i).compare s.view .eq (.handle j) = .ok (.ofBool b)) :
    (Value.handle i).compare s.view .ne (.handle j) = .ok (.ofBool !b) := by
  simp only [Value.compare, Value.compareSingle, Value.compareHandles] at h ⊢
  rw [h]
  show ((Value.ofBool b).truth >>= fun c => Except.ok (Value.ofBool !c)) = _
  rw [Value.truth_ofBool]
  rfl

end Store

end StreamStat
