import StreamStat.Proofs.Interleaving

/-!
# Independent accounts

Accounts whose footprints are disjoint can be fed in any order, unless what comes of a sample depends
on how these accounts stand. That can be so only if one of them is itself, or is in, a sample, an
extreme, or what a converter knows besides its argument.
-/

namespace StreamStat.Store

/-- Accounts that have nothing to do with each other, nor with the values that they are to be fed.
The objects `U` are those that these values may hold. -/
structure Independent (s : Store) (U : Set Nat) (targets : List Nat) (values : List Value) : Prop where
  marked : 0 < s.marks
  unchanged : s.changes = []
  disjoint : targets.Pairwise fun h k => Disjoint (s.footprint h) (s.footprint k)
  /-- There are no tallies, converters are functions of their argument, and the objects that values
  hold look the same whatever becomes of the accounts. -/
  ground : Ground s (s.footprints targets) U
  values : ∀ v ∈ values, v.Known s.marks U
  accounts : ∀ h a, .object h ∈ s.footprints targets → s.account? h = some a → a.Known s.marks U
  tapes : ∀ k, .tape k ∈ s.footprints targets → ∀ v ∈ s.tape k, v.Known s.marks U

namespace Independent

variable {s : Store} {U : Set Nat} {targets : List Nat} {values : List Value} (hi : s.Independent U targets values)
include hi

theorem nodup : targets.Nodup := by
  refine hi.disjoint.imp fun {h k} hd => ?_
  rintro rfl
  exact Set.disjoint_left.mp hd .self .self

theorem shadowed : Shadowed s U targets (fun _ => old s.marks) s fun _ => s where
  apart _ _ _ _ _ _ _ _ h _ := h.2
  inStep _ hh := inStep_self hi.marked (fun x a hx => hi.accounts x a (footprint_subset hh hx))
    fun k hk => hi.tapes k (footprint_subset hh hk)

/-- Accounts that are independent stay so when they are fed. -/
theorem feed {h : Nat} (hh : h ∈ targets) {v : Value} (hv : v.Known s.marks U) :
    (s.feed (.handle h) v).store.Independent U targets values := by
  obtain ⟨_, R, hs⟩ := hi.shadowed.feed hi.ground hi.disjoint hh hv
  have hw : Within (s.footprints targets) s (s.feed (.handle h) v).store := (hs.inStep h hh).left
  have hprint : (s.feed (.handle h) v).store.footprints targets = s.footprints targets := by
    simp only [footprints, hw.footprint]
  have hold : ∀ i j, old s.marks i j → old (s.feed (.handle h) v).store.marks i j :=
    fun i j hij => ⟨hij.1, Nat.lt_of_lt_of_le hij.2 hw.marks⟩
  exact
    { marked := Nat.lt_of_lt_of_le hi.marked hw.marks
      unchanged := hw.changes.trans hi.unchanged
      disjoint := by
        simp only [hw.footprint]
        exact hi.disjoint
      ground := hprint ▸ hi.ground.within hi.marked hw
      values := fun w hw => (hi.values w hw).mono hold subset_rfl
      accounts := fun x a hx ha => by
        rw [hprint] at hx
        obtain ⟨k, hk, hx⟩ := hx
        obtain ⟨b, _, hab⟩ := (hs.inStep k hk).account hx ha
        exact hab.known (hs.inStep k hk).pairing fun i j hij => ((hs.inStep k hk).fresh i j hij).1
      tapes := fun x hx => by
        rw [hprint] at hx
        obtain ⟨k, hk, hx⟩ := hx
        have htape := ((hs.inStep k hk).tape x hx).known (hs.inStep k hk).pairing fun i j hij =>
          ((hs.inStep k hk).fresh i j hij).1
        have hall := List.forall₂_same.mp (Value.likeAll_iff.mp htape)
        exact hall }

/-- Calls on accounts that are independent can be interleaved in any way. -/
theorem play_any_order {cs ds : List (Nat × Value)} (hcs : ∀ c ∈ cs, c.1 ∈ targets ∧ c.2 ∈ values)
    (hds : ∀ c ∈ ds, c.1 ∈ targets ∧ c.2 ∈ values)
    (hsame : ∀ h ∈ targets, (cs.filter fun c => c.1 = h) = ds.filter fun c => c.1 = h) (hok : (play cs s).fault = none) :
    (play ds s).fault = none ∧ SameHeap s.marks (play cs s).store (play ds s).store := by
  have known {cs : List (Nat × Value)} (hcs : ∀ c ∈ cs, c.1 ∈ targets ∧ c.2 ∈ values) :
      ∀ c ∈ cs, c.1 ∈ targets ∧ c.2.Known s.marks U := fun c hc => ⟨(hcs c hc).1, hi.values _ (hcs c hc).2⟩
  have within {cs : List (Nat × Value)} (hcs : ∀ c ∈ cs, c.1 ∈ targets ∧ c.2 ∈ values) :
      Within (s.footprints targets) s (play cs s).store :=
    within_play hi.ground.tallyless (s.closed_footprints targets) cs fun c hc => ⟨c.1, (hcs c hc).1, .self⟩
  obtain ⟨hiff, hleft⟩ := hi.shadowed.play hi.ground hi.disjoint (known hcs)
  obtain ⟨hiff', hright⟩ := hi.shadowed.play hi.ground hi.disjoint (known hds)
  have hok' : (play ds s).fault = none := hiff'.mpr fun h hh => by
    rw [← hsame h hh]
    exact hiff.mp hok h hh
  obtain ⟨R, hs⟩ := hleft hok
  obtain ⟨R', ht⟩ := hright hok'
  refine ⟨hok', sameHeap_of_shadowed hi.marked hs (ht.congr fun h hh => ?_) (within hcs) (within hds)⟩
  rw [hsame h hh]

end Independent

/-- Independent accounts can be fed in any order, value by value or one account after the other: if
feeding them returns in one order it does in all, the heap is the same in the end, and nothing has
changed outside of their footprints. -/
theorem independent_in_any_order {s : Store} {U : Set Nat} {targets : List Nat} {values : List Value}
    (hi : s.Independent U targets values) (hok : (accumulate (targets.map .handle) values s).outcome.fault = none) :
    (∀ order : List Nat, order.Perm targets →
      (accumulate (order.map .handle) values s).outcome.fault = none ∧
        SameHeap s.marks (accumulate (targets.map .handle) values s).outcome.store
          (accumulate (order.map .handle) values s).outcome.store) ∧
    (∀ order : List Nat, order.Perm targets →
      (forEach (fun t u => (accumulate [t] values u).outcome) (order.map .handle) s).fault = none ∧
        SameHeap s.marks (accumulate (targets.map .handle) values s).outcome.store
          (forEach (fun t u => (accumulate [t] values u).outcome) (order.map .handle) s).store) ∧
    (∀ h, (∀ t ∈ targets, .object h ∉ s.footprint t) →
      (accumulate (targets.map .handle) values s).outcome.store.object? h = s.object? h) ∧
    ∀ k, (∀ t ∈ targets, .tape k ∉ s.footprint t) →
      (accumulate (targets.map .handle) values s).outcome.store.tape k = s.tape k := by
  have hne : targets ≠ [] := by
    rintro rfl
    cases hok
  have hn := hi.ground.tallyless
  have hmem {order : List Nat} (hp : order.Perm targets) : ∀ c ∈ byValue order values, c.1 ∈ targets ∧ c.2 ∈ values :=
    fun c hc => (mem_byValue.mp hc).imp_left hp.mem_iff.mp
  have hmem' {order : List Nat} (hp : order.Perm targets) : ∀ c ∈ byTarget order values, c.1 ∈ targets ∧ c.2 ∈ values :=
    fun c hc => (mem_byTarget.mp hc).imp_left hp.mem_iff.mp
  rw [accumulate_eq_play hn hi.unchanged hne] at hok ⊢
  have hw := within_play hn (s.closed_footprints targets) (byValue targets values)
    fun c hc => ⟨c.1, (hmem (.refl _) c hc).1, .self⟩
  refine ⟨fun order hp => ?_, fun order hp => ?_, fun h hh => ?_, fun k hk => ?_⟩
  · have hne' : order ≠ [] := by
      rintro rfl
      exact hne hp.symm.eq_nil
    rw [accumulate_eq_play hn hi.unchanged hne']
    refine hi.play_any_order (hmem (.refl _)) (hmem hp) (fun h hh => ?_) hok
    rw [filter_byValue hi.nodup hh, filter_byValue (hp.nodup_iff.mpr hi.nodup) (hp.mem_iff.mpr hh)]
  · rw [accumulateEach_eq_play hn hi.unchanged]
    refine hi.play_any_order (hmem (.refl _)) (hmem' hp) (fun h hh => ?_) hok
    rw [filter_byValue hi.nodup hh, filter_byTarget (hp.nodup_iff.mpr hi.nodup) (hp.mem_iff.mpr hh)]
  · exact hw.object h fun ⟨t, ht, hp⟩ => hh t ht hp
  · exact hw.tape k fun ⟨t, ht, hp⟩ => hk t ht hp

/-- A least sample with a view that reads texts, and a mean with a view that gives what it forwards
to a counter as well. -/
def readerAndMean : Store where
  objects :=
    [.account (.opened (.statistic .min false) 0), .account (.view (.handle 0) (.ofConversion .none .float)),
      .account (.opened (.statistic .mean false) 0), .account (.opened .counter 0),
      .account (.view (.handle 2) (.tee .none (.handle 3)))]
  tapes := []
  marks := 4
  changes := []

theorem independent_readerAndMean :
    readerAndMean.Independent ∅ [1, 4] [.text "3" 2, .text "1.5" 3] where
  marked := by decide
  unchanged := rfl
  disjoint := by
    have hreader : readerAndMean.footprint 1 = {.object 1, .object 0} := by
      rw [footprint_of_untapped (k := 0) (c := .ofConversion .none .float) rfl (by simp), footprint_of_base rfl rfl]
    have hmean : readerAndMean.footprint 4 = {.object 4, .object 2, .object 3} := by
      have hkept := footprint_of_base (s := readerAndMean) (h := 2) rfl rfl
      have hcounted := footprint_of_base (s := readerAndMean) (h := 3) rfl rfl
      rw [footprint_of_view (k := 2) (c := .tee .none (.handle 3)) rfl]
      ext p
      simp [or_and_right, exists_or, hkept, hcounted]
    rw [List.pairwise_pair, hreader, hmean]
    simp
  ground :=
    { tallyless := by
        rintro (_ | _ | _ | _ | _ | h) t ht <;> cases ht
      functional := by
        rintro (_ | _ | _ | _ | _ | h) adoptee c _ hl <;> cases hl
        · exact Converter.isFunctional_ofConversion _ _ _ _
        · exact Converter.isFunctional_tee _ _ _ _
      steady := fun t _ => ⟨fun _ h => h.elim, fun _ h => h.elim, fun _ h => h.elim⟩ }
  values := by
    rintro v hv
    simp only [List.mem_cons, List.not_mem_nil, or_false] at hv
    rcases hv with rfl | rfl <;> exact .text _ ⟨rfl, by decide⟩
  accounts := by
    rintro (_ | _ | _ | _ | _ | h) a _ ha <;> cases ha
    · exact ⟨rfl, rfl, .min .none, ⟨rfl, by decide⟩, rfl⟩
    · exact ⟨rfl, rfl, .view _ _, ⟨rfl, by decide⟩, rfl⟩
    · exact ⟨rfl, rfl, .mean _, ⟨rfl, by decide⟩, rfl⟩
    · exact ⟨rfl, rfl, .counter, ⟨rfl, by decide⟩, rfl⟩
    · exact ⟨rfl, rfl, .view _ _, ⟨rfl, by decide⟩, rfl⟩
  tapes := by
    rintro k _ v hv
    cases hv

theorem any_order_of_readerAndMean :
    (accumulate [.handle 1, .handle 4] [.text "3" 2, .text "1.5" 3] readerAndMean).outcome.fault = none ∧
      (accumulate [.handle 4, .handle 1] [.text "3" 2, .text "1.5" 3] readerAndMean).outcome.fault = none ∧
      SameHeap 4 (accumulate [.handle 1, .handle 4] [.text "3" 2, .text "1.5" 3] readerAndMean).outcome.store
        (accumulate [.handle 4, .handle 1] [.text "3" 2, .text "1.5" 3] readerAndMean).outcome.store := by
  have hok : (accumulate [.handle 1, .handle 4] [.text "3" 2, .text "1.5" 3] readerAndMean).outcome.fault = none := by
    decide +kernel
  exact ⟨hok, (independent_in_any_order independent_readerAndMean hok).1 [4, 1] (by decide)⟩

/-! ## What shows how an account stands -/

def countAndView (c : Converter) : Store where
  objects :=
    [.account (.opened .plain 0), .account (.opened (.statistic .min false) 0), .account (.view (.handle 1) c)]
  tapes := []
  marks := 2
  changes := []

def texts : Converter := .ofConversion .none .str

def textOf (h : Nat) : Converter :=
  .ofFunction texts.shown .none false fun o _ => (o.text h).map .ofText

def leastText? (s : Store) (h : Nat) : Option String :=
  match (s.account? h).map Account.body with
  | some (.min (.text t _)) => some t
  | _ => none

theorem leastText?_eq {m : Nat} {s t : Store} (hs : SameHeap m s t) (h : Nat) : s.leastText? h = t.leastText? h := by
  obtain ⟨R, _, _, hobject, _⟩ := hs
  unfold leastText? account?
  rcases hobject h with he | hr
  · rw [he]
  · generalize s.object? h = x, t.object? h = y at hr
    cases hr with
    | none => rfl
    | some hlike =>
      cases hlike with
      | other _ => rfl
      | @account a b hab =>
        have hb := hab.body
        simp only [Option.map_some]
        generalize a.body = x, b.body = y at hb
        cases hb with
        | min hv => cases hv <;> rfl
        | _ => rfl

def OrderMatters (s : Store) (h k : Nat) (values : List Value) : Prop :=
  Disjoint (s.footprint h) (s.footprint k) ∧
    (accumulate [.handle h, .handle k] values s).outcome.fault = none ∧
    (accumulate [.handle k, .handle h] values s).outcome.fault = none ∧
    ¬ SameHeap s.marks (accumulate [.handle h, .handle k] values s).outcome.store
      (accumulate [.handle k, .handle h] values s).outcome.store

theorem disjoint_countAndView {c : Converter} (ht : c.taps = ∅) :
    Disjoint ((countAndView c).footprint 0) ((countAndView c).footprint 2) := by
  have hview : (countAndView c).footprint 2 = {.object 2, .object 1} := by
    rw [footprint_of_untapped (k := 1) (c := c) rfl ht, footprint_of_base rfl rfl]
  rw [hview, footprint_of_base (h := 0) rfl rfl]
  simp

/-- Accounts with disjoint footprints cannot be fed in any order if the text that a view makes shows
how often one of them has been fed, be it that this one is the sample, or that the converter knows it. -/
theorem order_matters :
    (countAndView texts).OrderMatters 0 2 [.handle 0] ∧ (countAndView (textOf 0)).OrderMatters 0 2 [.ofInt 1] := by
  refine ⟨⟨disjoint_countAndView (by simp [texts]), by decide +kernel, by decide +kernel, fun hs => ?_⟩,
    ⟨disjoint_countAndView (by simp [textOf]), by decide +kernel, by decide +kernel, fun hs => ?_⟩⟩
  all_goals
    have htext := leastText?_eq hs 1
    revert htext
    decide +kernel

end StreamStat.Store
