import StreamStat.Proofs.Extremes

/-!
# Accounts that keep two statistics at once

An account for both extremes compares as one for the least sample does and then as one for the greatest, so
that it keeps what the two keep for as long as it has refused nothing. An account for a variance keeps
a mean beside the spread, and no spread can fail, so that it stays in step with one for the mean alone even
where samples are refused.
-/

namespace StreamStat

namespace Account

/-! ## Both extremes -/

structure Fuses (both least greatest : Account) : Prop where
  body : ∃ x y, both.body = .minMax x y ∧ least.body = .min x ∧ greatest.body = .max y
  least_samples : both.samples = least.samples
  greatest_samples : both.samples = greatest.samples

section
variable {both least greatest : Account}

/-- The least sample is looked at first, so that its fault is the one that is seen. -/
theorem Fuses.reply (h : Fuses both least greatest) (d : Delivery) :
    both.reply d = (least.reply d).or (greatest.reply d) := by
  obtain ⟨⟨x, y, hb, hl, hg⟩, -, -⟩ := h
  simp only [Account.reply, receive, hb, hl, hg]
  cases keepLess d.sight x d.sample with
  | error f => rfl
  | ok x' => cases keepGreater d.sight y d.sample <;> rfl

theorem Fuses.receive (h : Fuses both least greatest) {d : Delivery} (hd : both.reply d = none) :
    Fuses (both.receive d.sight 0 d.sample).1 (least.receive d.sight 0 d.sample).1
      (greatest.receive d.sight 0 d.sample).1 := by
  obtain ⟨⟨x, y, hb, hl, hg⟩, hls, hgs⟩ := h
  simp only [Account.reply, Account.receive, hb] at hd
  simp only [Account.receive, hb, hl, hg]
  cases hx : keepLess d.sight x d.sample with
  | error f => rw [hx] at hd; cases hd
  | ok x' =>
    rw [hx] at hd
    cases hy : keepGreater d.sight y d.sample with
    | error f => rw [hy] at hd; cases hd
    | ok y' => exact ⟨⟨x', y', rfl, rfl, rfl⟩, congrArg (· + 1) hls, congrArg (· + 1) hgs⟩

theorem Fuses.fed {ds : List Delivery} (h : Fuses both least greatest) (ha : both.Accepts ds) :
    least.Accepts ds ∧ greatest.Accepts ds ∧ Fuses (both.fed ds) (least.fed ds) (greatest.fed ds) := by
  induction ds generalizing both least greatest with
  | nil => exact ⟨List.forall_mem_nil _, List.forall_mem_nil _, h⟩
  | cons d ds ih =>
    obtain ⟨hd, ha⟩ := accepts_cons.mp ha
    obtain ⟨hl, hg⟩ := Option.or_eq_none_iff.mp ((h.reply d).symm.trans hd)
    obtain ⟨hls, hgs, hfed⟩ := ih (h.receive hd) ha
    exact ⟨accepts_cons.mpr ⟨hl, hls⟩, accepts_cons.mpr ⟨hg, hgs⟩, hfed⟩

theorem Fuses.field? (h : Fuses both least greatest) :
    both.field? "min" = least.field? "min" ∧ both.field? "max" = greatest.field? "max" := by
  obtain ⟨⟨x, y, hb, hl, hg⟩, -, -⟩ := h
  simp [Account.field?, fields, statistics, hb, hl, hg, List.lookup_cons]

end

/-! ## Mean and variance -/

structure Extends (whole mean : Account) : Prop where
  body : ∃ m, whole.body = .variance m ∧ mean.body = .mean m.mean
  samples : whole.samples = mean.samples
  stamp : whole.stamp = mean.stamp

section
variable {whole mean : Account}

theorem Extends.receive (h : Extends whole mean) (d : Delivery) :
    whole.reply d = mean.reply d ∧
      Extends (whole.receive d.sight 0 d.sample).1 (mean.receive d.sight 0 d.sample).1 := by
  obtain ⟨⟨m, hw, hm⟩, hs, ht⟩ := h
  simp only [Account.reply, Account.receive, hw, hm, hs]
  cases d.sample.toDouble with
  | error f => exact ⟨rfl, ⟨m, hw, hm⟩, hs, ht⟩
  | ok x => exact ⟨rfl, ⟨_, rfl, rfl⟩, congrArg (· + 1) hs, rfl⟩

theorem Extends.fed (h : Extends whole mean) (ds : List Delivery) :
    whole.replies ds = mean.replies ds ∧ Extends (whole.fed ds) (mean.fed ds) := by
  induction ds generalizing whole mean with
  | nil => exact ⟨rfl, h⟩
  | cons d ds ih =>
    obtain ⟨hd, h⟩ := h.receive d
    obtain ⟨hds, hfed⟩ := ih h
    exact ⟨congrArg₂ List.cons hd hds, hfed⟩

theorem Extends.field? (h : Extends whole mean) : whole.field? "mean" = mean.field? "mean" := by
  obtain ⟨⟨m, hw, hm⟩, hs, ht⟩ := h
  simp [Account.field?, fields, statistics, hw, hm, hs, ht, List.lookup_cons]

end

/-- Given the same samples, whatever they are, a new account for both extremes is in step with one for
the least and one for the greatest sample up to the first one that it refuses, and that is the first one that
one of the two refuses. A new account for a variance always is in step with one for the mean. -/
theorem fused_in_step (logged : Statistic → Bool) (tape : Nat) (ds : List Delivery) :
    let new (s : Statistic) := opened (.statistic s (logged s)) tape
    let fed (s : Statistic) := s.fed (logged s) tape ds
    ((new .minMax).Accepts ds →
      (new .min).Accepts ds ∧ (new .max).Accepts ds ∧
        (fed .minMax).field? "min" = (fed .min).field? "min" ∧
        (fed .minMax).field? "max" = (fed .max).field? "max" ∧
        (fed .minMax).samples = (fed .min).samples ∧ (fed .minMax).samples = (fed .max).samples ∧
        ∀ d, (fed .minMax).reply d = ((fed .min).reply d).or ((fed .max).reply d)) ∧
      (new .variance).replies ds = (new .mean).replies ds ∧
        (fed .variance).field? "mean" = (fed .mean).field? "mean" ∧
        (fed .variance).samples = (fed .mean).samples := by
  intro new fed
  have hboth : Fuses (new .minMax) (new .min) (new .max) := ⟨⟨.none, .none, rfl, rfl, rfl⟩, rfl, rfl⟩
  have hmean : Extends (new .variance) (new .mean) := ⟨⟨⟨0, 0⟩, rfl, rfl⟩, rfl, rfl⟩
  obtain ⟨hreplies, hwhole⟩ := hmean.fed ds
  refine ⟨fun ha => ?_, hreplies, hwhole.field?, hwhole.samples⟩
  obtain ⟨hl, hg, h⟩ := hboth.fed ha
  exact ⟨hl, hg, h.field?.1, h.field?.2, h.least_samples, h.greatest_samples, h.reply⟩

def lateTexts : List Delivery := [⟨.none, .none⟩, ⟨.none, .none⟩, ⟨.none, .text "b" 2⟩, ⟨.none, .text "a" 3⟩]

theorem fused_in_step_of_lateTexts :
    (opened (.statistic .minMax false) 0).Accepts lateTexts ∧
      ((Statistic.minMax.fed false 0 lateTexts).field? "min").map Value.mark = some 3 ∧
      ((Statistic.min.fed false 0 lateTexts).field? "min").map Value.mark = some 3 ∧
      (Statistic.minMax.fed false 0 lateTexts).reply ⟨.none, .ofInt 1⟩ = some .wrongType ∧
      ((Statistic.variance.fed false 0 lateTexts).samples = 0) := by
  have ha : (opened (.statistic .minMax false) 0).Accepts lateTexts := by unfold Accepts; decide +kernel
  obtain ⟨hboth, -, -, hs⟩ := fused_in_step (fun _ => false) 0 lateTexts
  obtain ⟨-, -, hmin, -, -, -, hreply⟩ := hboth ha
  refine ⟨ha, ?_, ?_, ?_, ?_⟩
  · exact (congrArg (Option.map Value.mark) hmin).trans (by decide +kernel)
  · exact (congrArg (Option.map Value.mark) hmin.symm).trans (by decide +kernel)
  · exact (hreply ⟨.none, .ofInt 1⟩).trans (by decide +kernel)
  · exact hs.trans (by decide +kernel)

end Account

end StreamStat
