import StreamStat.Proofs.Likeness
import StreamStat.Proofs.Rows
import StreamStat.Proofs.Support

/-!
# Equal distributions are interchangeable

Distributions are compared by their bounds as they were given, which may be of different kinds,
and are evaluated on the doubles of the bounds. Numbers that are equal have doubles that coincide
but for the sign of a zero, and nothing in the two functions tells such doubles apart.
-/

namespace StreamStat

open Double Value

/-! ## Doubles that coincide -/

namespace Double

/-- Two finite doubles that are numerically equal; of two zeros one may be negative. -/
structure Coincide (x y : Double) : Prop where
  left : x.isFinite = true
  right : y.isFinite = true
  level : x.level = y.level

theorem alike_iff {x y : Double} :
    x.alike y = true ↔
      (x.isNaN = true ∧ y.isNaN = true) ∨ (x.isNaN = false ∧ y.isNaN = false ∧ x.level = y.level) := by
  rw [alike, Bool.or_eq_true, Bool.and_eq_true]
  refine or_congr_right ⟨level_of_eq, ?_⟩
  rintro ⟨hx, hy, h⟩
  exact (eq_iff hx hy).mpr h

namespace Coincide

variable {x y l k d e : Double}

theorem of_level (hx : x.isFinite = true) (hy : y.isNaN = false) (h : x.level = y.level) : Coincide x y := by
  refine ⟨hx, ?_, h⟩
  rw [isFinite_iff hy, ← h]
  exact (isFinite_iff (isNaN_of_isFinite hx)).mp hx

theorem of_alike (h : x.alike y = true) (hx : x.isFinite = true) : Coincide x y := by
  rcases alike_iff.mp h with ⟨hn, _⟩ | ⟨_, hy, hlevel⟩
  · rw [isNaN_of_isFinite hx] at hn
    cases hn
  · exact of_level hx hy hlevel

theorem refl (hx : x.isFinite = true) : Coincide x x := ⟨hx, hx, rfl⟩

theorem alike (h : Coincide x y) : x.alike y = true :=
  alike_of_level (isNaN_of_isFinite h.left) (isNaN_of_isFinite h.right) h.level

theorem eq (h : Coincide x y) : x.eq y = true :=
  (eq_iff (isNaN_of_isFinite h.left) (isNaN_of_isFinite h.right)).mpr h.level

theorem alike_sub (hx : Coincide x y) (hl : Coincide l k) : (x - l).alike (y - k) = true := by
  obtain ⟨hn, hlevel⟩ := sub_of_isFinite hx.left hl.left
  obtain ⟨hn', hlevel'⟩ := sub_of_isFinite hx.right hl.right
  refine alike_of_level hn hn' ?_
  rw [hlevel, hlevel', hx.level, hl.level]

theorem alike_div (hx : Coincide x y) (hd : Coincide d e) (hne : d.level ≠ 0) : (x / d).alike (y / e) = true := by
  obtain ⟨hn, hlevel⟩ := div_of_isFinite hx.left hd.left hne
  obtain ⟨hn', hlevel'⟩ := div_of_isFinite hx.right hd.right (hd.level ▸ hne)
  refine alike_of_level hn hn' ?_
  rw [hlevel, hlevel', hx.level, hd.level]

theorem extended? (h : Coincide x y) : x.extended? = y.extended? := by
  have hlevel := h.level
  cases x with
  | finite a m =>
    cases y with
    | finite b n =>
      rw [extended?_finite, extended?_finite]
      simp only [Double.level] at hlevel
      rw [hlevel]
    | _ => cases h.right
  | _ => cases h.left

theorem related (h : Coincide x y) (rel : Relation) (n : Number) :
    Number.related rel (.float x) n = Number.related rel (.float y) n ∧
      Number.related rel n (.float x) = Number.related rel n (.float y) := by
  simp only [Number.related, Number.extended?, h.extended?, and_self]

end Coincide

theorem eq_nan {x : Double} (h : x.isNaN = true) : x = nan := by
  cases x <;> first | rfl | cases h

theorem level_inf_inj {a b : Bool} (h : (inf a).level = (inf b).level) : a = b := by
  have := limit_pos
  cases a <;> cases b <;> simp [level] at h ⊢ <;> omega

/-- Doubles that are alike coincide, or they are the same. -/
theorem alike_cases {x y : Double} (h : x.alike y = true) : Coincide x y ∨ (x = y ∧ x.isFinite = false) := by
  rcases alike_iff.mp h with ⟨hx, hy⟩ | ⟨hx, hy, hlevel⟩
  · rw [eq_nan hx, eq_nan hy]
    exact .inr ⟨rfl, rfl⟩
  · cases hf : x.isFinite with
    | true => exact .inl (.of_level hf hy hlevel)
    | false =>
      have hf' : y.isFinite = false := by
        rw [← Bool.not_eq_true, isFinite_iff hx] at hf
        rw [← Bool.not_eq_true, isFinite_iff hy, ← hlevel]
        exact hf
      cases x with
      | inf a =>
        cases y with
        | inf b => exact .inr ⟨congrArg inf (level_inf_inj hlevel), rfl⟩
        | nan => cases hy
        | finite b n => cases hf'
      | nan => cases hx
      | finite a m => cases hf

/-- What is computed from bounds that are alike coincides. -/
theorem Spans.coincide {l u k w : Double} (h : Spans l u) (hl : l.alike k = true) (hu : u.alike w = true) :
    Coincide l k ∧ Coincide u w ∧ Coincide (u - l) (w - k) ∧ Coincide (1 / (u - l)) (1 / (w - k)) := by
  obtain ⟨hfu, hfl⟩ := isFinite_of_sub h.isFinite
  have hone : (1 : Double).isFinite = true := by decide +kernel
  have hl := Coincide.of_alike hl hfl
  have hu := Coincide.of_alike hu hfu
  have hwidth := Coincide.of_alike (hu.alike_sub hl) h.isFinite
  exact ⟨hl, hu, hwidth, .of_alike ((Coincide.refl hone).alike_div hwidth h.pos.ne') h.wide⟩

end Double

/-! ## Numbers that are equal -/

namespace Number

theorem extended?_of_toRat? {x : Double} {r : ℚ} (h : x.toRat? = some r) : x.extended? = some (.finite r) := by
  cases x with
  | finite a m => exact congrArg (Option.map Extended.finite) h
  | _ => cases h

theorem extended?_of_quotient {a : Number} {q : Quotient} (h : a.quotient? = some q) :
    a.extended? = some (.finite (mkRat q.num.value q.den)) := by
  cases a with
  | bool b | int i | machineInt w i =>
    cases h
    exact congrArg (fun r => some (Extended.finite r)) (Rat.mkRat_one ..).symm
  | fraction r =>
    cases h
    exact congrArg (fun r => some (Extended.finite r)) (Rat.mkRat_self r).symm
  | machineFraction w num den =>
    cases h
    rfl
  | float x =>
    obtain ⟨r, hr, rfl⟩ := Option.map_eq_some_iff.mp h
    refine (extended?_of_toRat? hr).trans ?_
    exact congrArg (fun r => some (Extended.finite r)) (Rat.mkRat_self r).symm
  | _ => cases h

variable {a b : Number}

theorem eq_of_compareBound (h : compareBound .eq a b = .ok true) : a.eq b = true := by
  unfold compareBound at h
  split at h
  · cases h
  · split at h
    · rename_i p q hp hq
      have hpq : (p.num.value = q.num.value ∧ p.den = q.den) := by simpa [Quotient.compare] using h
      refine Number.eq_iff.mpr ⟨_, extended?_of_quotient hp, ?_⟩
      rw [extended?_of_quotient hq, hpq.1, hpq.2]
    · exact Except.ok.inj h

theorem eq_of_compare (ha : a.isMachine = false) (hb : b.isMachine = false) {n : Number} (h : compare .eq a b = .ok n)
    (hn : n.isTrue = true) : a.eq b = true := by
  simp only [compare, ha, hb, Bool.false_eq_true, if_false] at h
  cases hc : comparePlain .eq a b with
  | error e => rw [hc] at h; cases h
  | ok c =>
    rw [hc] at h
    cases h
    have hc : comparePlain .eq a b = .ok true := by
      cases c with
      | true => exact hc
      | false => exact absurd hn (by decide)
    unfold comparePlain at hc
    split at hc
    · exact eq_of_compareBound hc
    · exact Except.ok.inj hc

/-- Numbers that are equal have doubles that are alike, whatever their kinds. -/
theorem alike_toDouble {x y : Double} (hx : a.toDouble = .ok x) (hy : b.toDouble = .ok y)
    (h : a = b ∨ a.eq b = true) : x.alike y = true := by
  rcases h with rfl | heq
  · rw [hx] at hy
    cases hy
    exact alike_self x
  · obtain ⟨e, ha, hb⟩ := Number.eq_iff.mp heq
    obtain ⟨hxn, hxl⟩ := level_toDouble hx ha
    obtain ⟨hyn, hyl⟩ := level_toDouble hy hb
    exact alike_of_level hxn hyn (hxl.trans hyl.symm)

end Number

namespace Value

theorem eq_of_agree {o : ObjectView} {a b : Number} {i j : Nat} (ha : a.isMachine = false) (hb : b.isMachine = false)
    (h : agree o (number a i) (number b j) = .ok true) : a = b ∨ a.eq b = true := by
  unfold agree at h
  split at h
  · rename_i hsame
    simp only [same, Bool.and_eq_true, decide_eq_true_eq] at hsame
    exact .inl hsame.1
  · rw [equal, compare_number] at h
    cases hn : a.compare .eq b with
    | error e => rw [hn] at h; cases h
    | ok n =>
      rw [hn] at h
      exact .inr (Number.eq_of_compare ha hb hn (Except.ok.inj h))

theorem agree_of_agreeAll {o : ObjectView} :
    ∀ {as bs : List Value}, agreeAll o as bs = .ok true → List.Forall₂ (fun v w => agree o v w = .ok true) as bs
  | [], [], _ => .nil
  | [], _ :: _, h => by cases h
  | _ :: _, [], h => by cases h
  | a :: as, b :: bs, h => by
    rw [agreeAll, compareItems_step] at h
    obtain ⟨v, hv, htrue⟩ := bind_ok h
    obtain ⟨c, hc, hrest⟩ := bind_ok hv
    cases c with
    | true =>
      have htail : agreeAll o as bs = .ok true := by
        rw [agreeAll, (show compareItems o .eq as bs = .ok v from hrest)]
        exact htrue
      exact .cons hc (agree_of_agreeAll htail)
    | false =>
      cases hrest
      cases htrue

end Value


/-! ## The ramp -/

namespace Cumulative

variable {l k d e : Double}

theorem alike_clip {x y : Double} (h : x.alike y = true) : (clip x).alike (clip y) = true := by
  rcases alike_iff.mp h with ⟨hx, hy⟩ | ⟨hx, hy, hlevel⟩
  · rw [eq_nan hx, eq_nan hy]
    exact alike_self _
  · refine alike_of_level (isNaN_clip hx) (isNaN_clip hy) ?_
    rw [level_clip hx, level_clip hy, hlevel]

theorem alike_ramp (hl : Coincide l k) (hd : Coincide d e) (hpos : 0 < d.level) (x : Double) :
    (ramp l d x).alike (ramp k e x) = true := by
  have hsub : (x - l).alike (x - k) = true := by
    cases x with
    | finite a m => exact (Coincide.refl rfl).alike_sub hl
    | inf a =>
      rw [inf_sub hl.left, inf_sub hl.right]
      exact alike_self _
    | nan => exact alike_self nan
  unfold ramp
  rcases alike_cases hsub with hc | ⟨heq, hinf⟩
  · exact hc.alike_div hd hpos.ne'
  · rw [← heq]
    cases hy : x - l with
    | finite a m => rw [hy] at hinf; cases hinf
    | inf a =>
      rw [inf_div hd.left hpos, inf_div hd.right (hd.level ▸ hpos)]
      exact alike_self _
    | nan => exact alike_self nan

theorem alike_stepBetween_of_coincide {u w : Double} (hl : Coincide l k) (hu : Coincide u w) (hd : Coincide d e)
    (hpos : 0 < d.level) (x : Double) :
    (stepBetween (.float l) (.float u) l d x).alike (stepBetween (.float k) (.float w) k e x) = true := by
  unfold stepBetween
  rw [(hl.related .lt _).2, (hu.related .lt _).1]
  split
  · exact alike_self 0
  · split
    · exact alike_self 1
    · exact alike_ramp hl hd hpos x

end Cumulative

/-! ## Answers that are alike -/

namespace Value

inductive Alike : Value → Value → Prop
  | number {x y : Double} {i j : Nat} : x.alike y = true → Alike (number (.float x) i) (number (.float y) j)
  | array {shape : List Nat} {xs ys : List Double} {i j : Nat} : List.Forall₂ (fun x y => x.alike y = true) xs ys →
    Alike (array ⟨.floating .double, shape, xs.map (.machineFloat .double)⟩ i)
      (array ⟨.floating .double, shape, ys.map (.machineFloat .double)⟩ j)

theorem alike_cells {f g : Double → Double} (h : ∀ x, (f x).alike (g x) = true) (shape : List Nat) (xs : List Double) :
    Alike (array ⟨.floating .double, shape, xs.map fun x => .machineFloat .double (f x)⟩ 0)
      (array ⟨.floating .double, shape, xs.map fun x => .machineFloat .double (g x)⟩ 0) := by
  have hcells : List.Forall₂ (fun x y => x.alike y = true) (xs.map f) (xs.map g) := by
    rw [List.forall₂_map_left_iff, List.forall₂_map_right_iff]
    exact List.forall₂_same.mpr fun x _ => h x
  have hmap (f : Double → Double) :
      xs.map (fun x => Number.machineFloat .double (f x)) = (xs.map f).map (.machineFloat .double) :=
    (List.map_map ..).symm
  rw [hmap, hmap]
  exact .array hcells

/-- Two functions are interchangeable: they fail on the same values in the same way, their answers are
alike on all others, and there is an answer to every point and to every grid of points. -/
structure Interchangeable (f g : Value → Except Fault Value) : Prop where
  accord : ∀ v, Accord Alike (f v) (g v)
  point : ∀ v x, v.toDouble = .ok x → ∃ w, f v = .ok w
  grid : ∀ v shape, v.shape = .ok shape → shape ≠ [] → (∀ w ∈ v.leaves, ∃ x, w.toDouble = .ok x) →
    ∃ w, f v = .ok w

def evaluate (eval : Value → Except Fault Value) (evalGrid : Points Double → Except Fault Grid) (v : Value) :
    Except Fault Value := do
  if (← v.shape) = [] then
    let x ← v.toDouble
    eval (.ofNumber (.float x))
  else
    return .array (← evalGrid (← v.toPoints)) 0

theorem interchangeable_evaluate {f f' : Value → Except Fault Value} {g g' : Points Double → Except Fault Grid}
    (hf : ∀ x, ∃ v w, f (ofNumber (.float x)) = .ok v ∧ f' (ofNumber (.float x)) = .ok w ∧ Alike v w)
    (hg : ∀ points, ∃ v w, g points = .ok v ∧ g' points = .ok w ∧ Alike (.array v 0) (.array w 0)) :
    Interchangeable (evaluate f g) (evaluate f' g') := by
  refine ⟨fun v => ?accord, fun v x hx => ?point, fun v shape hs hne hv => ?grid⟩
  case accord =>
    unfold evaluate
    cases v.shape with
    | error e => exact .error e
    | ok shape =>
      by_cases hshape : shape = []
      · simp only [hshape, bind, Except.bind, if_true]
        cases v.toDouble with
        | error e => exact .error e
        | ok x =>
          obtain ⟨v, w, hv, hw, h⟩ := hf x
          simp only [hv, hw]
          exact .ok h
      · simp only [hshape, bind, Except.bind, if_false]
        cases v.toPoints with
        | error e => exact .error e
        | ok points =>
          obtain ⟨v, w, hv, hw, h⟩ := hg points
          simp only [hv, hw]
          exact .ok h
  case point =>
    obtain ⟨v', w, hv', _⟩ := hf x
    refine ⟨v', ?_⟩
    rw [evaluate, shape_of_toDouble hx, hx]
    exact hv'
  case grid =>
    obtain ⟨xs, hxs, _⟩ := toPoints_of_items hs hv
    obtain ⟨v', w, hv', _⟩ := hg ⟨shape, xs⟩
    refine ⟨.array v' 0, ?_⟩
    rw [evaluate, hs, hxs]
    simp only [bind, Except.bind, hne, if_false, hv']
    rfl

end Value

/-! ## Uniform functions on bounds that coincide -/

theorem Density.apply_eq (p : Density Value) : p.apply = evaluate p.eval p.evalGrid := rfl

theorem Cumulative.apply_eq (c : Cumulative Value) : c.apply = evaluate c.eval c.evalGrid := rfl

section
variable {l u k w d e : Double} (hl : Coincide l k) (hu : Coincide u w) (hd : Coincide d e) (i j m i' j' m' : Nat)
include hl hu hd

theorem Density.interchangeable_of_coincide :
    Interchangeable (apply ⟨number (.float l) i, number (.float u) j, number (.float d) m⟩)
      (apply ⟨number (.float k) i', number (.float w) j', number (.float e) m'⟩) := by
  have hinside (x : Double) : isWithin (.float l) (.float u) x = isWithin (.float k) (.float w) x := by
    rw [isWithin, isWithin, (hl.related .le _).1, (hu.related .le _).2]
  have hheight (x : Double) : (if isWithin (.float l) (.float u) x then d else 0).alike
      (if isWithin (.float k) (.float w) x then e else 0) = true := by
    rw [hinside]
    split
    · exact hd.alike
    · exact alike_self 0
  rw [apply_eq, apply_eq]
  refine interchangeable_evaluate (fun x => ?_) fun points => ?_
  · obtain ⟨r, hr⟩ := eval_of_isReal (a := .float l) (b := .float u) d i j m rfl rfl x
    obtain ⟨r', hr'⟩ := eval_of_isReal (a := .float k) (b := .float w) e i' j' m' rfl rfl x
    exact ⟨_, _, hr, hr', .number (hheight x)⟩
  · exact ⟨_, _, evalGrid_of_gridBound d i j m rfl rfl points.shape points.cells,
      evalGrid_of_gridBound e i' j' m' rfl rfl points.shape points.cells, alike_cells hheight _ _⟩

theorem Cumulative.interchangeable_of_coincide (hpos : 0 < d.level) :
    Interchangeable (apply ⟨number (.float l) i, number (.float u) j, number (.float d) m⟩)
      (apply ⟨number (.float k) i', number (.float w) j', number (.float e) m'⟩) := by
  have hz : ¬ d.eq 0 = true := mt (eq_zero_iff (isNaN_of_isFinite hd.left)).mp hpos.ne'
  have hz' : ¬ e.eq 0 = true := mt (eq_zero_iff (isNaN_of_isFinite hd.right)).mp (hd.level ▸ hpos.ne')
  rw [apply_eq, apply_eq]
  refine interchangeable_evaluate (fun x => ?_) fun points => ?_
  · obtain ⟨r, hr⟩ := eval_of_isReal (a := .float l) (b := .float u) (n := .float d) i j m rfl rfl rfl rfl rfl hz x
    obtain ⟨r', hr'⟩ := eval_of_isReal (a := .float k) (b := .float w) (n := .float e) i' j' m' rfl rfl rfl rfl rfl hz' x
    exact ⟨_, _, hr, hr', .number (alike_stepBetween_of_coincide hl hu hd hpos x)⟩
  · exact ⟨_, _, evalGrid_of_gridBound i j m rfl rfl points.shape points.cells,
      evalGrid_of_gridBound i' j' m' rfl rfl points.shape points.cells,
      alike_cells (fun x => alike_clip (alike_ramp hl hd hpos x)) _ _⟩

end

/-! ## Comparing distributions -/

theorem Value.agreeAll_of_coincide (o : ObjectView) {x y z x' y' z' : Double} (hx : Coincide x x') (hy : Coincide y y')
    (hz : Coincide z z') (i j k i' j' k' : Nat) :
    agreeAll o [number (.float x) i, number (.float y) j, number (.float z) k]
      [number (.float x') i', number (.float y') j', number (.float z') k'] = .ok true := by
  have hagrees {x x' : Double} (h : Coincide x x') (i i' : Nat) :
      agrees (number (.float x) i) (number (.float x') i') = true := by
    refine agrees_number.mpr ⟨_, _, rfl, .inr ?_⟩
    rw [Number.eq, Number.related_eq_float]
    exact h.eq
  rw [agreeAll, compareItems_eq_of_isPlain o rfl rfl]
  simp only [agreesAll, hagrees hx, hagrees hy, hagrees hz, Bool.and_self]
  exact truth_ofBool true

theorem Except.map_ofBool_truth (r : Except Fault Bool) : (r.map ofBool >>= truth) = r := by
  cases r with
  | error e => rfl
  | ok b => exact truth_ofBool b

namespace Store

structure Lists (s : Store) (h : Nat) (d : UniformDistribution) (p c : Nat) : Prop where
  distribution : ∃ domain, s.object? h = some (.distribution d domain p c)
  density : s.object? p = some (.density d.pdf)
  cumulative : s.object? c = some (.cumulative d.cdf)

section
variable {s : Store} {h k p q c r : Nat} {d e : UniformDistribution} (hd : s.Lists h d p c) (he : s.Lists k e q r)
include hd he

/-- Distributions are compared by their bounds as given; one is equal to itself in any case. -/
theorem equal_distributions :
    (Value.handle h).equal s.view (.handle k) =
      if h = k then .ok true else d.domain.equal (s.viewWithin s.objects.length) e.domain := by
  obtain ⟨_, hx⟩ := hd.distribution
  obtain ⟨_, hy⟩ := he.distribution
  rw [Value.equal, compare_handles hx hy]
  by_cases hhk : h = k
  · simp only [Object.compare, hhk, decide_true, if_true]
    exact truth_ofBool true
  · simp only [Object.compare, hhk, decide_false, Bool.false_eq_true, if_false]
    exact Except.map_ofBool_truth _

theorem equal_densities :
    (Value.handle p).equal s.view (.handle q) = d.pdf.equal (s.viewWithin s.objects.length) e.pdf := by
  rw [Value.equal, compare_handles hd.density he.density]
  exact Except.map_ofBool_truth _

theorem equal_cumulatives :
    (Value.handle c).equal s.view (.handle r) = d.cdf.equal (s.viewWithin s.objects.length) e.cdf := by
  rw [Value.equal, compare_handles hd.cumulative he.cumulative]
  exact Except.map_ofBool_truth _

end

theorem lists_push {s t u : Store} {d : UniformDistribution} {domain : Nat} (ht : t = s.push (.density d.pdf))
    (hu : u = t.push (.cumulative d.cdf)) :
    (u.push (.distribution d domain s.next t.next)).Lists u.next d s.next t.next := by
  subst hu ht
  refine ⟨⟨domain, ?_⟩, ?_, ?_⟩ <;> simp [push, next, object?]

end Store

namespace Session

theorem run_lift {α : Type} (r : Except Fault α) (S : Session) : (Action.lift r).run.run S = (r, S) := rfl

theorem run_pure {α : Type} (a : α) (S : Session) : (pure a : Action α).run.run S = (.ok a, S) := rfl

theorem run_onStore {α : Type} (f : Store → α × Store) (S : Session) :
    (Action.onStore f).run.run S = (.ok (f S.store).1, { S with store := (f S.store).2 }) := rfl

theorem run_make (x : Object) (S : Session) :
    (Action.make x).run.run S = (.ok (.handle S.store.next), { S with store := S.store.push x }) := rfl

theorem run_handleOf (h : Nat) (S : Session) : (Action.handleOf (.handle h)).run.run S = (.ok h, S) := rfl

end Session

open Session in
/-- A session lists the distributions that it makes. -/
theorem lists_makeDistribution {domain : Range} {d : UniformDistribution}
    (hd : UniformDistribution.ofRange domain = .ok d) (handle : Option Nat) (S : Session) :
    ∃ k p c T, (Action.makeDistribution domain handle).run.run S = (.ok (.handle k), T) ∧
      T.store.Lists k (d.stamp S.store.marks) p c := by
  unfold Action.makeDistribution
  rw [hd]
  cases handle
  all_goals
    simp only [run_bind, run_lift, run_pure, run_make, run_onStore, run_handleOf, run_store]
    split <;> exact ⟨_, _, _, _, rfl, Store.lists_push rfl rfl⟩

namespace UniformDistribution

theorem ofBounds_eq_ofRange (a b : Number) (i j : Nat) :
    ofBounds (number a i) (number b j) = ofRange ⟨number a i, number b j, rfl, rfl⟩ := rfl

inductive AcceptedOn (a b : Number) (d : UniformDistribution) : Prop
  | bounds {i j : Nat} : ofBounds (number a i) (number b j) = .ok d → AcceptedOn a b d
  | range {r : Range} {i j : Nat} : r.min = number a i → r.max = number b j → ofRange r = .ok d → AcceptedOn a b d

theorem AcceptedOn.ofBounds {a b : Number} {d : UniformDistribution} (h : AcceptedOn a b d) :
    ∃ i j, UniformDistribution.ofBounds (number a i) (number b j) = .ok d := by
  cases h with
  | bounds h => exact ⟨_, _, h⟩
  | range hmin hmax h =>
    rename_i r i j
    obtain ⟨lower, upper, _, _⟩ := r
    cases hmin
    cases hmax
    exact ⟨i, j, (ofBounds_eq_ofRange ..).trans h⟩

/-- What is kept of an accepted distribution: the bounds as given and two functions of their doubles. -/
theorem AcceptedOn.stamp {a b : Number} {d : UniformDistribution} (h : AcceptedOn a b d) (mark : Nat) :
    ∃ l u i j, a.toDouble = .ok l ∧ b.toDouble = .ok u ∧ Spans l u ∧
      (d.stamp mark).domain.min = number a i ∧ (d.stamp mark).domain.max = number b j ∧
      (∃ i j k, (d.stamp mark).pdf = ⟨number (.float l) i, number (.float u) j, number (.float (1 / (u - l))) k⟩) ∧
      ∃ i j k, (d.stamp mark).cdf = ⟨number (.float l) i, number (.float u) j, number (.float (u - l)) k⟩ := by
  obtain ⟨i, j, h⟩ := h.ofBounds
  obtain ⟨l, u, _, _, hl, hu, hs, rfl⟩ := ofBounds_number_ok h
  exact ⟨l, u, i, j, hl, hu, hs, rfl, rfl, Density.kept_number .., Cumulative.kept_number ..⟩

/-- Distributions that compare equal have bounds that are equal, be they the same or not. -/
theorem eq_bounds {s : Store} {h k p q c r : Nat} {d e : UniformDistribution} (hd : s.Lists h d p c)
    (he : s.Lists k e q r) (heq : (Value.handle h).equal s.view (.handle k) = .ok true) {a b a' b' : Number}
    {i j i' j' : Nat} (ha : d.domain.min = number a i) (hb : d.domain.max = number b j)
    (ha' : e.domain.min = number a' i') (hb' : e.domain.max = number b' j') (hma : a.isMachine = false)
    (hmb : b.isMachine = false) (hma' : a'.isMachine = false) (hmb' : b'.isMachine = false) :
    (a = a' ∨ a.eq a' = true) ∧ (b = b' ∨ b.eq b' = true) := by
  rw [Store.equal_distributions hd he] at heq
  split at heq
  · rename_i hhk
    obtain ⟨_, hx⟩ := hd.distribution
    obtain ⟨_, hy⟩ := he.distribution
    rw [hhk, hy] at hx
    cases hx
    rw [ha] at ha'
    rw [hb] at hb'
    cases ha'
    cases hb'
    exact ⟨.inl rfl, .inl rfl⟩
  · rw [Range.equal, ha, hb, ha', hb'] at heq
    obtain ⟨hmin, hrest⟩ := List.forall₂_cons.mp (agree_of_agreeAll heq)
    obtain ⟨hmax, _⟩ := List.forall₂_cons.mp hrest
    exact ⟨eq_of_agree hma hma' hmin, eq_of_agree hmb hmb' hmax⟩

/-- Distributions that compare equal are interchangeable, whatever the kinds of their bounds and
however they have been made: their densities and their cumulative functions are equal, and answer
every value alike. -/
theorem interchangeable_of_equal {a b a' b' : Number} (ha : a.isMachine = false) (hb : b.isMachine = false)
    (ha' : a'.isMachine = false) (hb' : b'.isMachine = false) {d e : UniformDistribution} (hd : AcceptedOn a b d)
    (he : AcceptedOn a' b' e) {s : Store} {h k p q c r m n : Nat} (hs : s.Lists h (d.stamp m) p c)
    (hs' : s.Lists k (e.stamp n) q r) (heq : (Value.handle h).equal s.view (.handle k) = .ok true) :
    (Value.handle p).equal s.view (.handle q) = .ok true ∧ (Value.handle c).equal s.view (.handle r) = .ok true ∧
      Interchangeable (d.stamp m).pdf.apply (e.stamp n).pdf.apply ∧
      Interchangeable (d.stamp m).cdf.apply (e.stamp n).cdf.apply := by
  obtain ⟨l, u, i, j, hl, hu, hspans, hmin, hmax, ⟨p₁, p₂, p₃, hpdf⟩, c₁, c₂, c₃, hcdf⟩ := hd.stamp m
  obtain ⟨l', u', i', j', hl', hu', _, hmin', hmax', ⟨q₁, q₂, q₃, hpdf'⟩, r₁, r₂, r₃, hcdf'⟩ := he.stamp n
  obtain ⟨hlow, hhigh⟩ := eq_bounds hs hs' heq hmin hmax hmin' hmax' ha hb ha' hb'
  obtain ⟨hlower, hupper, hwidth, hheight⟩ :=
    hspans.coincide (Number.alike_toDouble hl hl' hlow) (Number.alike_toDouble hu hu' hhigh)
  rw [Store.equal_densities hs hs', Store.equal_cumulatives hs hs', hpdf, hpdf', hcdf, hcdf']
  exact ⟨agreeAll_of_coincide _ hlower hupper hheight .., agreeAll_of_coincide _ hlower hupper hwidth ..,
    Density.interchangeable_of_coincide hlower hupper hheight ..,
    Cumulative.interchangeable_of_coincide hlower hupper hwidth _ _ _ _ _ _ hspans.pos⟩

def zeroToHalf : Number × Number := (.int 0, .fraction (1 / 2))

def minusZeroToHalf : Number × Number := (.float (.ofRatio true 0 1), .decimal (.finite false 5 (-1)))

theorem interchangeable_of_zeroToHalf :
    ∃ d e s, AcceptedOn zeroToHalf.1 zeroToHalf.2 d ∧ AcceptedOn minusZeroToHalf.1 minusZeroToHalf.2 e ∧
      (Value.handle 0).equal (Store.view s) (.handle 3) = .ok true ∧
      (Value.handle 1).equal s.view (.handle 4) = .ok true ∧ (Value.handle 2).equal s.view (.handle 5) = .ok true ∧
      Interchangeable (d.stamp 6).pdf.apply (e.stamp 10).pdf.apply ∧
      Interchangeable (d.stamp 6).cdf.apply (e.stamp 10).cdf.apply := by
  have hspans : Spans (.ofInt 0) (.ofRat (1 / 2)) := ⟨by decide +kernel, by decide +kernel, by decide +kernel⟩
  have hspans' : Spans (.ofRatio true 0 1) (.ofRat (1 / 2)) :=
    ⟨by decide +kernel, by decide +kernel, by decide +kernel⟩
  obtain ⟨d, hd⟩ := ofBounds_number_of_spans (a := zeroToHalf.1) (b := zeroToHalf.2) (i := 2) (j := 3)
    (by decide +kernel) (by decide +kernel) hspans
  obtain ⟨e, he⟩ := ofBounds_number_of_spans (a := minusZeroToHalf.1) (b := minusZeroToHalf.2) (i := 4) (j := 5)
    (by decide +kernel) (by decide +kernel) hspans'
  let s : Store := ⟨[.distribution (d.stamp 6) 6 1 2, .density (d.stamp 6).pdf, .cumulative (d.stamp 6).cdf,
    .distribution (e.stamp 10) 7 4 5, .density (e.stamp 10).pdf, .cumulative (e.stamp 10).cdf], [], 14, []⟩
  have hs : s.Lists 0 (d.stamp 6) 1 2 := ⟨⟨6, rfl⟩, rfl, rfl⟩
  have hs' : s.Lists 3 (e.stamp 10) 4 5 := ⟨⟨7, rfl⟩, rfl, rfl⟩
  have hdomain : (d.stamp 6).domain = ⟨number zeroToHalf.1 2, number zeroToHalf.2 3, rfl, rfl⟩ := by
    obtain ⟨_, _, _, _, _, _, _, rfl⟩ := ofBounds_number_ok hd
    rfl
  have hdomain' : (e.stamp 10).domain = ⟨number minusZeroToHalf.1 4, number minusZeroToHalf.2 5, rfl, rfl⟩ := by
    obtain ⟨_, _, _, _, _, _, _, rfl⟩ := ofBounds_number_ok he
    rfl
  have heq : (Value.handle 0).equal s.view (.handle 3) = .ok true := by
    have hagrees : agreesAll [number zeroToHalf.1 2, number zeroToHalf.2 3]
        [number minusZeroToHalf.1 4, number minusZeroToHalf.2 5] = true := by decide +kernel
    rw [Store.equal_distributions hs hs', if_neg (by decide), hdomain, hdomain', Range.equal, agreeAll,
      compareItems_eq_of_isPlain _ (by decide) (by decide), hagrees]
    exact truth_ofBool true
  have hacc : AcceptedOn zeroToHalf.1 zeroToHalf.2 d := .bounds hd
  have hacc' : AcceptedOn minusZeroToHalf.1 minusZeroToHalf.2 e :=
    .range (r := ⟨number minusZeroToHalf.1 4, number minusZeroToHalf.2 5, rfl, rfl⟩) rfl rfl
      ((ofBounds_eq_ofRange ..).symm.trans he)
  exact ⟨d, e, s, hacc, hacc', heq, interchangeable_of_equal rfl rfl rfl rfl hacc hacc' hs hs' heq⟩

end UniformDistribution

end StreamStat
