import StreamStat.Proofs.Atomicity
import StreamStat.Proofs.Counts
import StreamStat.Proofs.NumberDoubles
import StreamStat.Proofs.SelfEquality

/-!
# Which sample an extreme is

An account that keeps the least or the greatest sample compares each new one with the one that it
keeps, and lets it go only for one that is strictly before it. Among numbers no comparison fails, and
a NaN is before nothing and has nothing before it. So a NaN that comes first stays for good, and
otherwise the extreme is the earliest sample that is no NaN and has none before it (`find?_isBest`).
-/

namespace StreamStat

/-! ## The best of a row -/

section
variable {α : Type} (odd : α → Bool) (rel : α → α → Bool)

def isBest (xs : List α) (x : α) : Bool := !odd x && xs.all fun y => odd y || rel x y

/-- Keeps an element, unless neither it nor the next one is odd and it does not stand in the relation
to the next one. -/
def keepBest (x y : α) : α := if odd x || odd y || rel x y then x else y

variable {odd rel}

theorem keepBest_eq_or (x y : α) : keepBest odd rel x y = x ∨ keepBest odd rel x y = y := by
  unfold keepBest
  split
  · exact .inl rfl
  · exact .inr rfl

theorem foldl_keepBest_of_odd {x : α} (hx : odd x = true) (xs : List α) : xs.foldl (keepBest odd rel) x = x := by
  induction xs with
  | nil => rfl
  | cons y xs ih => rw [List.foldl_cons, keepBest, hx, Bool.true_or, Bool.true_or, if_pos rfl, ih]

theorem isBest_iff {xs : List α} {x : α} :
    isBest odd rel xs x = true ↔ odd x = false ∧ ∀ y ∈ xs, odd y = false → rel x y = true := by
  simp only [isBest, Bool.and_eq_true, Bool.not_eq_true', List.all_eq_true, Bool.or_eq_true]
  refine and_congr_right fun _ => forall₂_congr fun y _ => ?_
  cases odd y <;> simp

/-- Keeping the best of two, element by element, ends in the earliest one that is the best of all. -/
theorem find?_isBest (htrans : ∀ x y z, rel x y = true → rel y z = true → rel x z = true) {x : α}
    (hx : odd x = false) (xs : List α)
    (htotal : ∀ y ∈ x :: xs, ∀ z ∈ x :: xs, odd y = false → odd z = false → rel y z = false → rel z y = true) :
    (x :: xs).find? (isBest odd rel (x :: xs)) = some (xs.foldl (keepBest odd rel) x) := by
  have hself : ∀ y ∈ x :: xs, odd y = false → rel y y = true := by
    intro y hy hodd
    cases h : rel y y with
    | true => rfl
    | false => exact h.symm.trans (htotal y hy y hy hodd hodd h)
  induction xs using List.reverseRecOn with
  | nil =>
    have hbest : isBest odd rel [x] x = true :=
      isBest_iff.mpr ⟨hx, by simpa only [List.forall_mem_singleton] using hself x (List.mem_singleton_self x)⟩
    rw [List.foldl_nil, List.find?_singleton, if_pos hbest]
  | append_singleton xs y ih =>
    rw [← List.cons_append] at htotal hself
    replace ih := ih (fun z hz w hw => htotal z (List.mem_append_left _ hz) w (List.mem_append_left _ hw))
      fun z hz => hself z (List.mem_append_left _ hz)
    rw [List.foldl_append, List.foldl_cons, List.foldl_nil, ← List.cons_append]
    generalize x :: xs = zs at ih htotal hself ⊢
    generalize xs.foldl (keepBest odd rel) x = w at ih ⊢
    obtain ⟨hw, as, bs, rfl, has⟩ := List.find?_eq_some_iff_append.mp ih
    obtain ⟨hodd, hbest⟩ := isBest_iff.mp hw
    -- what is best of the longer row was best of the shorter one
    have hlonger {z : α} : isBest odd rel (as ++ w :: bs ++ [y]) z = true ↔
        isBest odd rel (as ++ w :: bs) z = true ∧ (odd y = false → rel z y = true) := by
      rw [isBest_iff, isBest_iff, and_assoc]
      simp only [List.forall_mem_append, List.forall_mem_singleton]
    have hy_mem : y ∈ as ++ w :: bs ++ [y] := List.mem_append_right _ (List.mem_singleton_self y)
    cases hk : odd w || odd y || rel w y with
    | true =>
      have hwy : odd y = false → rel w y = true := fun h => by simpa [hodd, h] using hk
      rw [keepBest, hk, if_pos rfl, List.find?_eq_some_iff_append]
      refine ⟨hlonger.mpr ⟨hw, hwy⟩, as, bs ++ [y], by simp, fun a ha => ?_⟩
      have hna : isBest odd rel (as ++ w :: bs) a = false := by simpa using has a ha
      rw [Bool.not_eq_true', Bool.eq_false_iff]
      exact fun h => Bool.eq_false_iff.mp hna (hlonger.mp h).1
    | false =>
      obtain ⟨⟨-, hy⟩, hwy⟩ : (odd w = false ∧ odd y = false) ∧ rel w y = false := by simpa using hk
      have hyw := htotal w (by simp) y hy_mem hodd hy hwy
      rw [keepBest, hk, if_neg Bool.false_ne_true, List.find?_eq_some_iff_append]
      refine ⟨isBest_iff.mpr ⟨hy, fun z hz hoz => ?_⟩, as ++ w :: bs, [], by simp, fun a ha => ?_⟩
      · rcases List.mem_append.mp hz with hz | hz
        · exact htrans y w z hyw (hbest z hz hoz)
        · rw [List.mem_singleton.mp hz]
          exact hself y hy_mem hy
      · rw [Bool.not_eq_true', Bool.eq_false_iff]
        intro h
        obtain ⟨hoa, hle⟩ := isBest_iff.mp h
        rw [htrans w a y (hbest a ha hoa) (hle y hy_mem hy)] at hwy
        cases hwy

end

/-! ## Samples as numbers -/

namespace Extended

theorem le_of_not_le {x y : Extended} (h : x.le y = false) : y.le x = true := by
  rw [le, Bool.not_eq_false'] at h
  rw [le, lt_asymm h]
  rfl

theorem le_trans {x y z : Extended} (h : x.le y = true) (h' : y.le z = true) : x.le z = true := by
  cases x <;> cases y <;> cases z <;> simp_all only [le, lt, Bool.not_eq_true', decide_eq_false_iff_not, not_lt] <;>
    first | linarith | cases h | cases h'

end Extended

theorem Number.related_lt_eq (m n : Number) : related .lt m n = !(n.isNaN || m.isNaN || related .le n m) := by
  unfold related isNaN
  cases m.extended? with
  | none => cases n.extended? <;> rfl
  | some x =>
    cases n.extended? with
    | none => rfl
    | some y => simp [Relation.ofExtended, Extended.le]

namespace Value

def isReal : Value → Bool
  | number n _ => n.isReal
  | _ => false

def atMost : Value → Value → Bool
  | number m _, number n _ => Number.related .le m n
  | _, _ => false

def isLeast : List Value → Value → Bool := isBest isNaN atMost

def isGreatest : List Value → Value → Bool := isBest isNaN fun v w => w.atMost v

section
variable {v w x : Value}

theorem eq_number_of_isReal (h : v.isReal = true) : ∃ n i, v = number n i ∧ n.isReal = true := by
  cases v with
  | number n i => exact ⟨n, i, rfl, h⟩
  | _ => cases h

theorem atMost_iff : v.atMost w = true ↔
    ∃ m i n j, v = number m i ∧ w = number n j ∧ Number.related .le m n = true := by
  cases v <;> cases w <;> simp [atMost]

theorem atMost_trans (h : v.atMost w = true) (h' : w.atMost x = true) : v.atMost x = true := by
  obtain ⟨m, i, n, j, rfl, rfl, hmn⟩ := atMost_iff.mp h
  obtain ⟨_, _, k, l, ⟨⟩, rfl, hnk⟩ := atMost_iff.mp h'
  obtain ⟨a, b, ha, hb, hab⟩ := Number.related_le.mp hmn
  obtain ⟨b', c, hb', hc, hbc⟩ := Number.related_le.mp hnk
  rw [hb, Option.some.injEq] at hb'
  exact Number.related_le.mpr ⟨a, c, ha, hc, Extended.le_trans hab (hb' ▸ hbc)⟩

theorem atMost_total (hv : v.isReal = true) (hw : w.isReal = true) (hv' : v.isNaN = false) (hw' : w.isNaN = false)
    (h : v.atMost w = false) : w.atMost v = true := by
  obtain ⟨m, i, rfl, -⟩ := eq_number_of_isReal hv
  obtain ⟨n, j, rfl, -⟩ := eq_number_of_isReal hw
  obtain ⟨a, ha⟩ := Option.isSome_iff_exists.mp (Option.isNone_eq_false_iff.mp hv')
  obtain ⟨b, hb⟩ := Option.isSome_iff_exists.mp (Option.isNone_eq_false_iff.mp hw')
  refine Number.related_le.mpr ⟨b, a, hb, ha, Extended.le_of_not_le ?_⟩
  simpa [atMost, Number.related, ha, hb, Relation.ofExtended] using h

theorem keepLess_of_isReal (o : ObjectView) (hv : v.isReal = true) (hw : w.isReal = true) :
    keepLess o w v = .ok (keepBest isNaN atMost w v) := by
  obtain ⟨m, i, rfl, hm⟩ := eq_number_of_isReal hv
  obtain ⟨n, j, rfl, hn⟩ := eq_number_of_isReal hw
  rw [keepLess_of_ne_none (by rintro ⟨⟩), lt_of_isReal o hm hn, Number.related_lt_eq]
  simp only [keepBest, isNaN, atMost, Except.map]
  split <;> simp_all

theorem keepGreater_of_isReal (o : ObjectView) (hv : v.isReal = true) (hw : w.isReal = true) :
    keepGreater o w v = .ok (keepBest isNaN (fun x y => y.atMost x) w v) := by
  obtain ⟨m, i, rfl, hm⟩ := eq_number_of_isReal hv
  obtain ⟨n, j, rfl, hn⟩ := eq_number_of_isReal hw
  rw [keepGreater_of_ne_none (by rintro ⟨⟩), lt_of_isReal o hn hm, Number.related_lt_eq, Bool.or_comm m.isNaN]
  simp only [keepBest, isNaN, atMost, Except.map]
  split <;> simp_all

end

end Value

/-! ## What an account replies -/

namespace Account

def reply (a : Account) (d : Delivery) : Option Fault := (a.receive d.sight 0 d.sample).2

def replies (a : Account) : List Delivery → List (Option Fault)
  | [] => []
  | d :: ds => a.reply d :: (a.receive d.sight 0 d.sample).1.replies ds

def Accepts (a : Account) (ds : List Delivery) : Prop := ∀ r ∈ a.replies ds, r = none

theorem accepts_cons {a : Account} {d : Delivery} {ds : List Delivery} :
    a.Accepts (d :: ds) ↔ a.reply d = none ∧ (a.receive d.sight 0 d.sample).1.Accepts ds :=
  List.forall_mem_cons

theorem samples_of_accepts {a : Account} {ds : List Delivery} (h : a.Accepts ds) :
    (a.fed ds).samples = a.samples + ds.length := by
  induction ds generalizing a with
  | nil => rfl
  | cons d ds ih =>
    obtain ⟨hd, h⟩ := accepts_cons.mp h
    have hone : (a.receive d.sight 0 d.sample).1.samples = a.samples + 1 := by
      rw [Store.samples_receive]
      exact congrArg (a.samples + ·) (if_pos hd)
    rw [List.length_cons, ← Nat.add_assoc, Nat.add_right_comm, ← hone]
    exact ih h

section
variable {make : Value → Body} {rel : Value → Value → Bool} {a : Account} {w : Value} {d : Delivery}
  {ds : List Delivery}

def KeepsBest (make : Value → Body) (rel : Value → Value → Bool) : Prop :=
  ∀ (a : Account) (d : Delivery) (w : Value), a.body = make w → w.isReal = true → d.sample.isReal = true →
    a.receive d.sight 0 d.sample = ((a.keep (make (keepBest Value.isNaN rel w d.sample))).count, none)

theorem keepsBest_min : KeepsBest .min Value.atMost := by
  intro a d w ha hw hd
  simp only [receive, ha, Value.keepLess_of_isReal d.sight hd hw]

theorem keepsBest_max : KeepsBest .max fun v w => w.atMost v := by
  intro a d w ha hw hd
  simp only [receive, ha, Value.keepGreater_of_isReal d.sight hd hw]

theorem KeepsBest.fed (h : KeepsBest make rel) (ha : a.body = make w) (hw : w.isReal = true)
    (hr : ∀ d ∈ ds, d.sample.isReal = true) :
    a.Accepts ds ∧ (a.fed ds).body = make ((ds.map Delivery.sample).foldl (keepBest Value.isNaN rel) w) := by
  induction ds generalizing a w with
  | nil => exact ⟨List.forall_mem_nil _, ha⟩
  | cons d ds ih =>
    obtain ⟨hd, hr⟩ := List.forall_mem_cons.mp hr
    have hone := h a d w ha hw hd
    have hbest : (keepBest Value.isNaN rel w d.sample).isReal = true := by
      rcases keepBest_eq_or w d.sample with h | h <;> rw [h] <;> assumption
    obtain ⟨haccepts, hbody⟩ := ih (a := (a.receive d.sight 0 d.sample).1) (by rw [hone]; rfl) hbest hr
    exact ⟨accepts_cons.mpr ⟨congrArg Prod.snd hone, haccepts⟩, hbody⟩

/-- The sample that stands for the extreme of some: the first one if that is a NaN, and otherwise the
earliest one that is the best. -/
def selected (best : List Value → Value → Bool) : List Value → Option Value
  | [] => none
  | v :: vs => if v.isNaN then some v else (v :: vs).find? (best (v :: vs))

/-- The first sample is kept as it is, and from then on the better one. -/
theorem KeepsBest.selects (h : KeepsBest make rel)
    (htrans : ∀ x y z, rel x y = true → rel y z = true → rel x z = true)
    (htotal : ∀ x y : Value, x.isReal = true → y.isReal = true → x.isNaN = false → y.isNaN = false →
      rel x y = false → rel y x = true)
    (hfirst : a.receive d.sight 0 d.sample = ((a.keep (make d.sample)).count, none))
    (hr : ∀ e ∈ d :: ds, e.sample.isReal = true) :
    a.Accepts (d :: ds) ∧ ∃ w, (a.fed (d :: ds)).body = make w ∧
      selected (isBest Value.isNaN rel) ((d :: ds).map Delivery.sample) = some w := by
  obtain ⟨hd, hds⟩ := List.forall_mem_cons.mp hr
  obtain ⟨haccepts, hbody⟩ := h.fed (a := (a.receive d.sight 0 d.sample).1) (by rw [hfirst]; rfl) hd hds
  refine ⟨accepts_cons.mpr ⟨congrArg Prod.snd hfirst, haccepts⟩, _, hbody, ?_⟩
  rw [List.map_cons, selected]
  split
  next hn => rw [foldl_keepBest_of_odd hn]
  next hn =>
    refine find?_isBest htrans (Bool.eq_false_iff.mpr hn) _ fun x hx y hy => htotal x y ?_ ?_
    · obtain ⟨e, he, rfl⟩ := List.mem_map.mp (List.map_cons .. ▸ hx)
      exact hr e he
    · obtain ⟨e, he, rfl⟩ := List.mem_map.mp (List.map_cons .. ▸ hy)
      exact hr e he

end

/-- A new account for the least sample and one for the greatest take all samples that are numbers of the
built-in kinds, in any mix, and count them. If the first sample is a NaN, both show it. Otherwise they show
the earliest sample that is no NaN and is at most, or at least, every sample that is none. -/
theorem extremes_select (logged : Bool) (tape : Nat) {ds : List Delivery} (hne : ds ≠ [])
    (hr : ∀ d ∈ ds, d.sample.isReal = true) :
    let vs := ds.map Delivery.sample
    ((opened (.statistic .min logged) tape).Accepts ds ∧ (Statistic.min.fed logged tape ds).samples = ds.length ∧
        ∃ v, (Statistic.min.fed logged tape ds).field? "min" = some v ∧ selected Value.isLeast vs = some v) ∧
      (opened (.statistic .max logged) tape).Accepts ds ∧ (Statistic.max.fed logged tape ds).samples = ds.length ∧
        ∃ v, (Statistic.max.fed logged tape ds).field? "max" = some v ∧ selected Value.isGreatest vs = some v := by
  obtain ⟨d, ds, rfl⟩ := List.exists_cons_of_ne_nil hne
  obtain ⟨hmin, least, hl, hleast⟩ := keepsBest_min.selects (a := opened (.statistic .min logged) tape)
    (fun _ _ _ => Value.atMost_trans) (fun _ _ => Value.atMost_total) rfl hr
  obtain ⟨hmax, greatest, hg, hgreatest⟩ := keepsBest_max.selects (a := opened (.statistic .max logged) tape)
    (fun _ _ _ h h' => Value.atMost_trans h' h)
    (fun _ _ hx hy hx' hy' h => Value.atMost_total hy hx hy' hx' h) rfl hr
  refine ⟨⟨hmin, ?_, least, ?_, hleast⟩, hmax, ?_, greatest, ?_, hgreatest⟩
  · exact (samples_of_accepts hmin).trans (Nat.zero_add _)
  · simp [field?, fields, statistics, Statistic.fed, hl, List.lookup_cons]
  · exact (samples_of_accepts hmax).trans (Nat.zero_add _)
  · simp [field?, fields, statistics, Statistic.fed, hg, List.lookup_cons]

/-- A NaN that is not the first sample, and three kinds of the number one between a half and an infinity. Each
sample has a mark of its own. -/
def sampleKinds : List Delivery :=
  [⟨.none, .number (.int 1) 2⟩, ⟨.none, .number (.float .nan) 3⟩, ⟨.none, .number (.bool true) 4⟩,
    ⟨.none, .number (.float (.inf false)) 5⟩, ⟨.none, .number (.fraction (1 / 2)) 6⟩,
    ⟨.none, .number (.float (.inf false)) 7⟩, ⟨.none, .number (.float (.ofInt 1)) 8⟩,
    ⟨.none, .number (.fraction (2 / 4)) 9⟩]

theorem extremes_select_of_sampleKinds :
    (∀ d ∈ sampleKinds, d.sample.isReal = true) ∧
      ((Statistic.min.fed false 0 sampleKinds).field? "min").map Value.mark = some 6 ∧
      ((Statistic.max.fed false 0 sampleKinds).field? "max").map Value.mark = some 5 ∧
      ((Statistic.max.fed false 0 (sampleKinds.take 3)).field? "max").map Value.mark = some 2 ∧
      ((Statistic.min.fed false 0 (sampleKinds.drop 1)).field? "min").map Value.mark = some 3 := by
  have hr : ∀ d ∈ sampleKinds, d.sample.isReal = true := by decide
  have hne : sampleKinds ≠ [] := List.cons_ne_nil _ _
  have htake : sampleKinds.take 3 ≠ [] := List.cons_ne_nil _ _
  have hdrop : sampleKinds.drop 1 ≠ [] := List.cons_ne_nil _ _
  obtain ⟨⟨-, -, v, hv, hleast⟩, -, -, w, hw, hgreatest⟩ := extremes_select false 0 hne hr
  obtain ⟨-, -, -, x, hx, htie⟩ := extremes_select false 0 htake fun d hd => hr d (List.mem_of_mem_take hd)
  obtain ⟨⟨-, -, y, hy, hnan⟩, -⟩ := extremes_select false 0 hdrop fun d hd => hr d (List.mem_of_mem_drop hd)
  rw [hv, hw, hx, hy, ← hleast, ← hgreatest, ← htie, ← hnan]
  exact ⟨hr, by decide +kernel⟩

end Account

end StreamStat
