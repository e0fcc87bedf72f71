import Mathlib.Data.Finset.Card
import Mathlib.Logic.Relation
import StreamStat.Proofs.Endings

/-!
# Objects that show other objects

An account shows the extremes that it keeps, a view its adoptee, a range its bounds, and these can be
objects again. A text or a comparison of an object goes on for ever only if the object leads to one
that it is reached from again: a longer way of objects than the store has objects comes back to one
of them (`coiled_of_deep`).
-/

namespace StreamStat

/-! ## What an object shows -/

def Object.contents : Object → List Value
  | .account a =>
    match a.body with
    | .view adoptee _ => [adoptee]
    | _ => a.extremes
  | x => x.keys

namespace Account

variable {o : ObjectView} {U : Set Nat} {a : Account}

theorem contents_of_base (ha : a.isView = false) : (Object.account a).contents = a.extremes := by
  unfold isView at ha
  unfold Object.contents
  cases hb : a.body with
  | view adoptee c => rw [hb] at ha; cases ha
  | _ => simp only [hb]

theorem knowsOnly_statistics (h : ∀ v ∈ a.extremes, v.KnowsOnly U) : ∀ s ∈ a.statistics, s.2.KnowsOnly U := by
  have hmean (n : Nat) (x : Double) (mark : Nat) : (meanOf n x mark).KnowsOnly U := by
    unfold meanOf
    split <;> exact fun _ hk => by cases hk
  have hvariance (n : Nat) (m : Moments Double) : (varianceOf n m).KnowsOnly U := by
    unfold varianceOf
    split <;> exact fun _ hk => by cases hk
  unfold extremes at h
  unfold statistics
  cases hb : a.body <;> simp_all

theorem ends_written (ho : o.EndsOn U) (h : ∀ v ∈ (Object.account a).contents, v.KnowsOnly U)
    (hc : ∀ adoptee c, a.body = .view adoptee c → c.Terminates) : Ends (a.written o) := by
  unfold written
  cases hb : a.body with
  | view adoptee c =>
    have hadoptee : adoptee.KnowsOnly U := h adoptee (by simp [Object.contents, hb])
    exact (Value.ends_written ho hadoptee).bind fun _ _ => ((hc adoptee c hb).shown o).bind fun _ _ => ends_ok _
  | counter => exact ends_ok _
  | recorder tape => exact ends_ok _
  | _ =>
    rw [contents_of_base (by simp [isView, hb])] at h
    refine (ends_mapM fun s hs => ?_).bind fun _ _ => ends_ok _
    exact (Value.ends_inlineText ho (knowsOnly_statistics h s hs)).bind fun _ _ => ends_ok _

theorem ends_compare (ho : o.EndsOn U) {b : Account}
    (h : (∀ v ∈ (Object.account a).contents, v.KnowsOnly U) ∨ ∀ w ∈ (Object.account b).contents, w.KnowsOnly U) :
    Ends (a.compare o b) := by
  unfold compare
  split
  · unfold compareStatistics
    split
    all_goals rename_i ha hb
    case h_1 | h_2 =>
      simp only [Object.contents, extremes, ha, hb, List.forall_mem_singleton] at h
      exact Value.ends_compare ho .eq h
    case h_3 =>
      simp only [Object.contents, extremes, ha, hb, List.forall_mem_cons] at h
      refine (Value.ends_compare ho .eq (h.imp And.left And.left)).bind fun first _ => ?_
      refine (Value.ends_truth first).bind fun c _ => ?_
      split
      · exact Value.ends_compare ho .eq (h.imp (fun h => h.2.1) fun h => h.2.1)
      · exact ends_ok _
    all_goals exact ends_ok _
  · exact ends_ok _

end Account

namespace Object

variable {o : ObjectView} {U : Set Nat} {x : Object}

theorem ends_written (ho : o.EndsOn U) (h : ∀ v ∈ x.contents, v.KnowsOnly U)
    (hc : ∀ a adoptee c, x = .account a → a.body = .view adoptee c → c.Terminates) : Ends (x.written o) := by
  cases x with
  | range r =>
    exact (Value.ends_written ho (h r.min (by simp [contents, keys]))).bind fun _ _ =>
      (Value.ends_written ho (h r.max (by simp [contents, keys]))).bind fun _ _ => ends_ok _
  | density p =>
    exact (Value.ends_written ho (h p.lower (by simp [contents, keys, Density.fields]))).bind fun _ _ =>
      (Value.ends_written ho (h p.upper (by simp [contents, keys, Density.fields]))).bind fun _ _ =>
      (Value.ends_written ho (h p.density (by simp [contents, keys, Density.fields]))).bind fun _ _ => ends_ok _
  | cumulative c =>
    exact (Value.ends_written ho (h c.lower (by simp [contents, keys, Cumulative.fields]))).bind fun _ _ =>
      (Value.ends_written ho (h c.upper (by simp [contents, keys, Cumulative.fields]))).bind fun _ _ =>
      (Value.ends_written ho (h c.divisor (by simp [contents, keys, Cumulative.fields]))).bind fun _ _ => ends_ok _
  | distribution d _ _ _ =>
    refine Ends.bind ?_ fun _ _ => ends_ok _
    exact (Value.ends_inlineText ho (h d.domain.min (by simp [contents, keys]))).bind fun _ _ =>
      (Value.ends_inlineText ho (h d.domain.max (by simp [contents, keys]))).bind fun _ _ => ends_ok _
  | account a => exact a.ends_written ho h fun adoptee c hb => hc a adoptee c rfl hb
  | _ => exact ends_ok _

theorem ends_text (ho : o.EndsOn U) (h : ∀ v ∈ x.contents, v.KnowsOnly U)
    (hc : ∀ a adoptee c, x = .account a → a.body = .view adoptee c → c.Terminates) : Ends (x.text o) := by
  cases x with
  | range r =>
    exact (Value.ends_inlineText ho (h r.min (by simp [contents, keys]))).bind fun _ _ =>
      (Value.ends_inlineText ho (h r.max (by simp [contents, keys]))).bind fun _ _ => ends_ok _
  | density p =>
    exact (Value.ends_inlineText ho (h p.density (by simp [contents, keys, Density.fields]))).bind fun _ _ => ends_ok _
  | cumulative c =>
    exact (Value.ends_inlineText ho (h c.lower (by simp [contents, keys, Cumulative.fields]))).bind fun _ _ =>
      (Value.ends_inlineText ho (h c.upper (by simp [contents, keys, Cumulative.fields]))).bind fun _ _ => ends_ok _
  | account a => exact ends_written ho h hc
  | distribution d _ _ _ => exact ends_written ho h hc
  | _ => exact ends_ok _

theorem ends_compare (ho : o.EndsOn U) {y : Object}
    (h : (∀ v ∈ x.contents, v.KnowsOnly U) ∨ ∀ w ∈ y.contents, w.KnowsOnly U) (same : Bool) :
    Ends (x.compare o same y) := by
  unfold compare
  split
  · exact ends_map.mpr (Value.ends_agreeAll ho h)
  · exact ends_map.mpr (Value.ends_agreeAll ho h)
  · exact ends_map.mpr (Value.ends_agreeAll ho h)
  · split
    · exact ends_ok _
    · exact ends_map.mpr (Value.ends_agreeAll ho h)
  · exact Account.ends_compare ho h
  · exact ends_ok _

end Object

namespace Store

def Shows (s : Store) (h k : Nat) : Prop := ∃ x, s.object? h = some x ∧ ∃ v ∈ x.contents, k ∈ v.handles

def Terminating (s : Store) : Prop := ∀ h adoptee c, s.link? h = some (adoptee, c) → c.Terminates

theorem Steps.terminating {s t : Store} {es : List Event} (hs : Steps s es t) (hc : s.Terminating) : t.Terminating :=
  fun h adoptee c hl => hc h adoptee c ((hs.link? h).symm.trans hl)

/-- So they do after a move if no view is made with one that does not. -/
theorem terminating_perform {s : Store} (hn : s.Tallyless) (hc : s.Terminating) {m : Move}
    (hm : ∀ adoptee c, m = .adapt adoptee c → c.Terminates) : (s.perform m).outcome.store.Terminating := by
  intro h adoptee c hl
  rcases link?_perform hn hl with ⟨k, _, hl⟩ | ⟨_, rfl⟩
  · exact hc k adoptee c hl
  · exact hm adoptee c rfl

theorem terminating_empty : Store.empty.Terminating := fun _ _ _ hl => by cases hl

theorem terminating_after {s : Store} (hn : s.Tallyless) (hc : s.Terminating) {ms : List Move}
    (hms : ∀ adoptee c, .adapt adoptee c ∈ ms → c.Terminates) : (s.after ms).Terminating := by
  induction ms generalizing s with
  | nil => exact hc
  | cons m ms ih =>
    refine ih (tallyless_perform hn m) (terminating_perform hn hc fun adoptee c hm => ?_) fun adoptee c hm => ?_
    · exact hms adoptee c (hm ▸ List.mem_cons_self)
    · exact hms adoptee c (List.mem_cons_of_mem _ hm)

/-! ## Ways of objects -/

def Deep (s : Store) : Nat → Nat → Prop
  | 0, _ => True
  | depth + 1, h => ∃ k, s.Shows h k ∧ s.Deep depth k

variable {s : Store}

theorem way_of_deep {depth h : Nat} (hd : s.Deep depth h) :
    ∃ f : Nat → Nat, f 0 = h ∧ ∀ i < depth, s.Shows (f i) (f (i + 1)) := by
  induction depth generalizing h with
  | zero => exact ⟨fun _ => h, rfl, fun i hi => absurd hi (Nat.not_lt_zero i)⟩
  | succ depth ih =>
    obtain ⟨k, hk, hd⟩ := hd
    obtain ⟨f, rfl, hf⟩ := ih hd
    refine ⟨fun i => if i = 0 then h else f (i - 1), if_pos rfl, fun i hi => ?_⟩
    cases i with
    | zero => exact hk
    | succ i => exact hf i (Nat.lt_of_succ_lt_succ hi)

theorem transGen_of_way {f : Nat → Nat} {depth : Nat} (hf : ∀ i < depth, s.Shows (f i) (f (i + 1))) {i j : Nat}
    (hij : i < j) (hj : j ≤ depth) : Relation.TransGen s.Shows (f i) (f j) := by
  induction j with
  | zero => exact absurd hij (Nat.not_lt_zero i)
  | succ j ih =>
    have hstep := hf j (Nat.lt_of_succ_le hj)
    rcases Nat.lt_succ_iff_lt_or_eq.mp hij with hlt | rfl
    · exact (ih hlt (Nat.le_of_succ_le hj)).tail hstep
    · exact .single hstep

/-- Whether an object leads to one that is reached from itself. -/
def Coiled (s : Store) (h : Nat) : Prop := ∃ k, Relation.ReflTransGen s.Shows h k ∧ Relation.TransGen s.Shows k k

/-- A way that is longer than the store has objects comes back to one of them. -/
theorem coiled_of_deep {h : Nat} (hd : s.Deep (s.objects.length + 1) h) : s.Coiled h := by
  obtain ⟨f, rfl, hf⟩ := way_of_deep hd
  have hrange : ∀ i ∈ Finset.range (s.objects.length + 1), f i ∈ Finset.range s.objects.length := by
    intro i hi
    obtain ⟨x, hx, _⟩ := hf i (Finset.mem_range.mp hi)
    exact Finset.mem_range.mpr (List.getElem?_eq_some_iff.mp hx).1
  obtain ⟨i, hi, j, hj, hne, hij⟩ := Finset.exists_ne_map_eq_of_card_lt_of_maps_to (by simp) hrange
  have reach {i : Nat} (hi : i ≤ s.objects.length + 1) : Relation.ReflTransGen s.Shows (f 0) (f i) := by
    rcases Nat.eq_zero_or_pos i with rfl | hpos
    · exact .refl
    · exact (transGen_of_way hf hpos hi).to_reflTransGen
  rcases Nat.lt_or_gt_of_ne hne with hlt | hlt
  · refine ⟨f i, reach (Finset.mem_range.mp hi).le, ?_⟩
    have hcycle := transGen_of_way hf hlt (Finset.mem_range.mp hj).le
    rwa [← hij] at hcycle
  · refine ⟨f j, reach (Finset.mem_range.mp hj).le, ?_⟩
    have hcycle := transGen_of_way hf hlt (Finset.mem_range.mp hi).le
    rwa [hij] at hcycle

/-! ## What is said of objects -/

/-- What is said of an object within a depth is said in the end if no way from it is as long. -/
theorem endsOn_viewWithin (hc : s.Terminating) : ∀ depth, (s.viewWithin depth).EndsOn {h | ¬ s.Deep depth h}
  | 0 => ⟨fun _ hi => absurd trivial hi, fun _ hi => absurd trivial hi,
      fun _ _ h => h.elim (absurd trivial) (absurd trivial)⟩
  | depth + 1 => by
    have ho := endsOn_viewWithin hc depth
    have within {h : Nat} (hh : ¬ s.Deep (depth + 1) h) {x : Object} (hx : s.object? h = some x) :
        ∀ v ∈ x.contents, v.KnowsOnly {h | ¬ s.Deep depth h} :=
      fun v hv k hk hd => hh ⟨k, ⟨x, hx, v, hv, hk⟩, hd⟩
    have views {h : Nat} {x : Object} (hx : s.object? h = some x) :
        ∀ a adoptee c, x = .account a → a.body = .view adoptee c → c.Terminates := by
      rintro a adoptee c rfl hb
      exact hc h adoptee c (link?_eq_some.mpr ⟨a, account?_eq_some.mpr hx, hb⟩)
    refine ⟨fun h hh => ?text, fun h hh => ?written, fun i j hij => ?equal⟩
    case text =>
      simp only [viewWithin]
      cases hx : s.object? h with
      | none => exact ends_error.mpr (by decide)
      | some x => exact Object.ends_text ho (within hh hx) (views hx)
    case written =>
      simp only [viewWithin]
      cases hx : s.object? h with
      | none => exact ends_error.mpr (by decide)
      | some x => exact Object.ends_written ho (within hh hx) (views hx)
    case equal =>
      simp only [viewWithin]
      split
      · rename_i x y hx hy
        exact Object.ends_compare ho (hij.imp (within · hx) (within · hy)) _
      · exact ends_error.mpr (by decide)

/-- All objects that lead to none that is reached from itself can be looked at. -/
theorem endsOn_view (hc : s.Terminating) : s.view.EndsOn {h | ¬ s.Coiled h} := by
  have ho := endsOn_viewWithin hc (s.objects.length + 1)
  have hdeep {h : Nat} (hh : ¬ s.Coiled h) : ¬ s.Deep (s.objects.length + 1) h := fun hd => hh (coiled_of_deep hd)
  exact ⟨fun h hh => ho.text h (hdeep hh), fun h hh => ho.written h (hdeep hh),
    fun i j hij => ho.equal i j (hij.imp hdeep hdeep)⟩

end Store

end StreamStat
