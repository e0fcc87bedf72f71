import StreamStat.Proofs.Counts
import StreamStat.Proofs.Lockstep
import StreamStat.Proofs.Views

/-!
# Accounts and their views

An account and the views that lead to it are its side. What a call on a side can reach is the side and
what lies below the account (`closed_side`). A view that is listed later joins the side of the account that it
leads to, and changes nothing else (`onSide_adapt`).
-/

namespace StreamStat.Store

section
variable {P : Converter → Prop} {s t : Store} {h k x : Nat}

/-! ## Sides -/

/-- What leads to an account by views whose converters are of some kind. -/
inductive OnSide (s : Store) (P : Converter → Prop) (h : Nat) : Nat → Prop where
  | self : OnSide s P h h
  | view {x y : Nat} {c : Converter} : s.link? x = some (.handle y, c) → P c → OnSide s P h y → OnSide s P h x

def side (s : Store) (P : Converter → Prop) (h : Nat) : Set Nat := {x | s.OnSide P h x}

theorem OnSide.congr (hl : ∀ x, t.link? x = s.link? x) (hx : s.OnSide P h x) : t.OnSide P h x := by
  induction hx with
  | self => exact .self
  | view hx hc _ ih => exact .view ((hl _).trans hx) hc ih

theorem side_congr (hl : ∀ x, t.link? x = s.link? x) : t.side P h = s.side P h :=
  Set.ext fun _ => ⟨.congr fun x => (hl x).symm, .congr hl⟩

theorem OnSide.le (hs : s.Layered) (hx : s.OnSide P h x) : h ≤ x := by
  induction hx with
  | self => exact Nat.le_refl h
  | view hx _ _ ih => exact Nat.le_of_lt (Nat.lt_of_le_of_lt ih ((hs _ _ _ hx).1 _ rfl))

theorem OnSide.lt_next (hh : h < s.next) (hx : s.OnSide P h x) : x < s.next := by
  cases hx with
  | self => exact hh
  | view hx _ _ =>
    obtain ⟨a, ha, _⟩ := link?_eq_some.mp hx
    exact lt_of_account? ha

theorem onSide_of_base (hl : s.link? x = none) (hx : s.OnSide P h x) : x = h := by
  cases hx with
  | self => rfl
  | view hx => rw [hl] at hx; cases hx

theorem OnSide.trans (hx : s.OnSide P h x) (hh : s.OnSide P k h) : s.OnSide P k x := by
  induction hx with
  | self => exact hh
  | view hx hc _ ih => exact .view hx hc ih

theorem OnSide.chain (hx : s.OnSide P h x) : ∃ path, Chain s h (.handle x) path ∧ ∀ v ∈ path, P v.2 := by
  induction hx with
  | self => exact ⟨[], .base, List.forall_mem_nil _⟩
  | @view x y c hx hc _ ih =>
    obtain ⟨path, hpath, hP⟩ := ih
    obtain ⟨a, ha, hb⟩ := link?_eq_some.mp hx
    exact ⟨(x, c) :: path, .view ha hb hpath, List.forall_mem_cons.mpr ⟨hc, hP⟩⟩

theorem OnSide.apart (hh : ¬ s.OnSide P k h) (hk : ¬ s.OnSide P h k) (hx : s.OnSide P h x) : ¬ s.OnSide P k x := by
  induction hx with
  | self => exact hh
  | view hx hc hy ih =>
    intro hx'
    cases hx' with
    | self => exact hk (.view hx hc hy)
    | view hx' _ hy' =>
      rw [hx] at hx'
      cases hx'
      exact ih hy'

theorem mem_objects {X : Set Nat} {x : Nat} : .object x ∈ Place.object '' X ↔ x ∈ X := by
  refine ⟨?_, fun hx => ⟨x, hx, rfl⟩⟩
  rintro ⟨y, hy, ⟨⟩⟩
  exact hy

theorem tape_notMem_objects {X : Set Nat} {k : Nat} : .tape k ∉ Place.object '' X := by
  rintro ⟨x, _, hx⟩
  cases hx

/-- Calls on a side do not lead out of it and of what the account refers to. -/
theorem closed_side {B : Set Place} (hB : s.Closed B) (hP : ∀ c, P c → c.taps = ∅)
    (hlink : ∀ adoptee c, s.link? h = some (adoptee, c) → Enters B adoptee ∧ ∀ t ∈ c.taps, Enters B t)
    (htape : ∀ k, s.recorder? h = some k → .tape k ∈ B) : s.Closed (Place.object '' s.side P h ∪ B) where
  adoptee := by
    rintro i k c (hi | hi) hl
    · cases mem_objects.mp hi with
      | self => exact .inr ((hlink _ c hl).1 k rfl)
      | view hx hc hy =>
        rw [hl] at hx
        cases hx
        exact .inl (mem_objects.mpr hy)
    · exact .inr (hB.adoptee hi hl)
  tap := by
    rintro i k adoptee c (hi | hi) hl ht
    · cases mem_objects.mp hi with
      | self => exact .inr ((hlink adoptee c hl).2 _ ht k rfl)
      | view hx hc _ =>
        rw [hl] at hx
        cases hx
        rw [hP c hc] at ht
        exact ht.elim
    · exact .inr (hB.tap hi hl ht)
  tape := by
    rintro i k (hi | hi) hr
    · cases mem_objects.mp hi with
      | self => exact .inr (htape k hr)
      | view hx _ _ =>
        rw [recorder?_of_link hx] at hr
        cases hr
    · exact .inr (hB.tape hi hr)

theorem closed_side_of_base (hP : ∀ c, P c → c.taps = ∅) (hl : s.link? h = none) (hr : s.recorder? h = none) :
    s.Closed (Place.object '' s.side P h) := by
  rw [← Set.union_empty (Place.object '' s.side P h)]
  refine closed_side ⟨fun h => h.elim, fun h => h.elim, fun h => h.elim⟩ hP ?_ ?_
  · intro adoptee c hl'
    rw [hl] at hl'
    cases hl'
  · intro k hr'
    rw [hr] at hr'
    cases hr'

/-! ## A view is listed -/

section
variable (adoptee : Value) (c : Converter)

theorem next_adapt : (s.adapt adoptee c).next = s.next + 1 := List.length_append

theorem object?_adapt (x : Nat) :
    (s.adapt adoptee c).object? x = if x = s.next then some (.account (.view adoptee c)) else s.object? x :=
  object?_append rfl x

theorem object?_adapt_of_lt (hx : x < s.next) : (s.adapt adoptee c).object? x = s.object? x := by
  rw [object?_adapt, if_neg (Nat.ne_of_lt hx)]

theorem account?_adapt {a : Account} (ha : s.account? x = some a) : (s.adapt adoptee c).account? x = some a := by
  rw [account?_eq_some, object?_adapt_of_lt _ _ (lt_of_account? ha), account?_eq_some.mp ha]

theorem link?_adapt (x : Nat) : (s.adapt adoptee c).link? x = if x = s.next then some (adoptee, c) else s.link? x := by
  simp only [link?, account?, object?_adapt]
  by_cases hx : x = s.next
  · simp [hx, Account.view]
  · simp [hx]

theorem link?_adapt_of_lt (hx : x < s.next) : (s.adapt adoptee c).link? x = s.link? x := by
  rw [link?_adapt, if_neg (Nat.ne_of_lt hx)]

theorem recorder?_adapt (x : Nat) : (s.adapt adoptee c).recorder? x = s.recorder? x := by
  simp only [recorder?, account?, object?_adapt]
  by_cases hx : x = s.next
  · have hnone : s.object? x = none := List.getElem?_eq_none (Nat.le_of_eq hx.symm)
    rw [hnone]
    simp [hx, Account.view, Account.tape?]
  · rw [if_neg hx]

theorem tallyless_adapt : (s.adapt adoptee c).Tallyless ↔ s.Tallyless := by
  refine ⟨fun hn x u hx => hn x u ?_, fun hn => hn.append rfl fun u h => by cases h⟩
  rw [object?_adapt_of_lt _ _ (List.getElem?_eq_some_iff.mp hx).1, hx]

theorem Within.adapt {F G : Set Place} (hw : Within F s t) (hFG : F ⊆ G) :
    Within G (s.adapt adoptee c) (t.adapt adoptee c) where
  length := (next_adapt ..).trans ((congrArg (· + 1) hw.length).trans (next_adapt ..).symm)
  tapes := hw.tapes
  object x hx := by
    rw [object?_adapt, object?_adapt, hw.object x fun h => hx (hFG h), next, next, hw.length]
  tape k hk := hw.tape k fun h => hk (hFG h)
  link x := by rw [link?_adapt, link?_adapt, hw.link, next, next, hw.length]
  recorder x := by rw [recorder?_adapt, recorder?_adapt, hw.recorder]
  tallyless := by
    rw [tallyless_adapt, tallyless_adapt]
    exact hw.tallyless
  changes := hw.changes
  marks := hw.marks

theorem sound_adapt (hs : s.Sound) {x : Nat} (hx : x < s.next) {c : Converter} (hc : c.taps = ∅) :
    (s.adapt (.handle x) c).Sound where
  tallyless := (tallyless_adapt _ _).mpr hs.tallyless
  layered := by
    refine layered_perform hs (m := .adapt (.handle x) c) ⟨fun y hy => ?_, fun t ht => ?_⟩
    · cases hy
      exact hx
    · rw [hc] at ht
      exact ht.elim

theorem InStep.adapt {base : Store} {H H' F F' : Set Place} {U : Set Nat} {R : Nat → Nat → Prop}
    (hi : InStep base H U F R s t) (hH : H ⊆ H') (hF : ∀ x, .object x ∈ F' → x = base.next ∨ .object x ∈ F)
    (hF' : ∀ k, .tape k ∈ F' → .tape k ∈ F) :
    InStep (base.adapt adoptee c) H' U F' R (s.adapt adoptee c) (t.adapt adoptee c) where
  left := hi.left.adapt adoptee c hH
  right := hi.right.adapt adoptee c hH
  pairing := hi.pairing
  fresh := hi.fresh
  object x hx := by
    rw [object?_adapt, object?_adapt, next, next, hi.left.length, hi.right.length]
    by_cases hn : x = base.objects.length
    · rw [if_pos hn, if_pos hn]
      exact .some (.account ⟨rfl, rfl, .view adoptee c, hi.pairing.zero, rfl⟩)
    · rw [if_neg hn, if_neg hn]
      exact hi.object x ((hF x hx).resolve_left hn)
  tape k hk := hi.tape k (hF' k hk)

theorem OnSide.adapt (hx : s.OnSide P h x) : (s.adapt adoptee c).OnSide P h x := by
  induction hx with
  | self => exact .self
  | view hx hc _ ih =>
    obtain ⟨a, ha, _⟩ := link?_eq_some.mp hx
    exact .view (by rw [link?_adapt_of_lt _ _ (lt_of_account? ha), hx]) hc ih

theorem onSide_adapt (hs : s.Layered) (hx : (s.adapt adoptee c).OnSide P h x) : x = s.next ∨ s.OnSide P h x := by
  induction hx with
  | self => exact .inr .self
  | @view x y d hx hd _ ih =>
    by_cases hn : x = s.next
    · exact .inl hn
    · rw [link?_adapt, if_neg hn] at hx
      obtain ⟨a, ha, _⟩ := link?_eq_some.mp hx
      have hy : y < x := (hs x _ d hx).1 y rfl
      exact .inr (.view hx hd (ih.resolve_left (Nat.ne_of_lt (Nat.lt_trans hy (lt_of_account? ha)))))

end

/-! ## Objects that look the same -/

/-- Whether objects look the same whatever becomes of others, and whatever is listed later. -/
def Steady (s : Store) (U X : Set Nat) : Prop :=
  ∀ t : Store, (∀ x < s.next, x ∉ X → t.object? x = s.object? x) → s.view.Agree U t.view

theorem Steady.adapt {U X X' : Set Nat} (hs : s.Steady U X) (hX : ∀ x < s.next, x ∈ X' → x ∈ X) (adoptee : Value)
    (c : Converter) : (s.adapt adoptee c).Steady U X' := by
  have hlt {x : Nat} (hx : x < s.next) : x < (s.adapt adoptee c).next := by
    rw [next_adapt]
    exact Nat.lt_succ_of_lt hx
  intro t ht
  have hnew := hs (s.adapt adoptee c) fun x hx _ => object?_adapt_of_lt adoptee c hx
  have hlater := hs t fun x hx hnot =>
    (ht x (hlt hx) fun h => hnot (hX x hx h)).trans (object?_adapt_of_lt adoptee c hx)
  exact
    { text := fun i hi => (hnew.text i hi).symm.trans (hlater.text i hi)
      written := fun i hi => (hnew.written i hi).symm.trans (hlater.written i hi)
      equal := fun i hi j hj => (hnew.equal i hi j hj).symm.trans (hlater.equal i hi j hj) }

/-! ## What a call on a side counts -/

def below (l : Nat) : Set Place := {p | ∀ x, p = .object x → x < l}

theorem closed_below (hs : s.Layered) (l : Nat) : s.Closed (below l) where
  adoptee := by
    rintro i k c hi hl _ ⟨⟩
    exact Nat.lt_trans ((hs i _ c hl).1 k rfl) (hi i rfl)
  tap := by
    rintro i k adoptee c hi hl ht _ ⟨⟩
    exact Nat.lt_trans ((hs i adoptee c hl).2 _ ht k rfl) (hi i rfl)
  tape := by
    rintro i k _ _ x ⟨⟩

def RefersBelow (s : Store) (h l : Nat) : Prop :=
  ∀ adoptee c, s.link? h = some (adoptee, c) → Older l adoptee ∧ ∀ t ∈ c.taps, Older l t

theorem enters_below {l : Nat} {v : Value} (hv : Older l v) : Enters (below l) v := by
  rintro k rfl _ ⟨⟩
  exact hv k rfl

/-- A call on a side changes nothing but the side and what is older than what the account refers to. -/
theorem object?_feed_of_notMem (hs : s.Sound) (hP : ∀ c, P c → c.taps = ∅) {l : Nat} (hl : s.RefersBelow h l)
    (hx : x ∈ s.side P h) (v : Value) {y : Nat} (hy : y ∉ s.side P h) (hly : l ≤ y) :
    (s.feed (.handle x) v).store.object? y = s.object? y := by
  have hclosed : s.Closed (Place.object '' s.side P h ∪ below l) :=
    closed_side (closed_below hs.layered l) hP
      (fun adoptee c h => ⟨enters_below (hl adoptee c h).1, fun t ht => enters_below ((hl adoptee c h).2 t ht)⟩)
      fun _ _ _ h => by cases h
  have henter : Enters (Place.object '' s.side P h ∪ below l) (.handle x) := by
    rintro _ ⟨⟩
    exact .inl (mem_objects.mpr hx)
  refine (within_feed (v := v) hs.tallyless hclosed henter).object y ?_
  rintro (h | h)
  · exact hy (mem_objects.mp h)
  · exact Nat.not_lt.mpr hly (h y rfl)

/-- A call on a view changes older objects only, and then the view counts it if it comes back. -/
theorem feed_view_cases (hs : s.Sound) {adoptee : Value} {c : Converter} (hl : s.link? h = some (adoptee, c))
    (v : Value) : ∃ u, Within (below h) s u ∧
      (s.feed (.handle h) v = ⟨u.count h, none⟩ ∨ ∃ f, s.feed (.handle h) v = ⟨u, some f⟩) := by
  obtain ⟨hadoptee, htaps⟩ := hs.layered h adoptee c hl
  have call {w t : Value} (ht : Older h t) {u : Store} (hu : Within (below h) s u) :
      Within (below h) u (feedWithin s.objects.length w t u).store :=
    within_feedWithin _ (hu.tallyless hs.tallyless) ((closed_below hs.layered h).within hu) (enters_below ht)
  have hrun : Within (below h) s ((c.program v).run (feedWithin s.objects.length) s).store :=
    within_run fun w t u ht hu => call (htaps t ⟨v, ht⟩) hu
  unfold feed
  rw [feedWithin_view hl]
  generalize (c.program v).run (feedWithin s.objects.length) s = e at hrun
  obtain ⟨u, result⟩ := e
  split
  · cases result with
    | error f => exact ⟨u, hrun, .inr ⟨f, rfl⟩⟩
    | ok w =>
      have hw := hrun.trans (call (w := w) hadoptee hrun)
      simp only [Exit.andThen, forward]
      generalize feedWithin s.objects.length w adoptee u = o at hw
      obtain ⟨t, fault⟩ := o
      cases fault with
      | some f => exact ⟨t, hw, .inr ⟨f, rfl⟩⟩
      | none => exact ⟨t, hw, .inl rfl⟩
  · exact ⟨s, .refl _ s, .inr ⟨_, rfl⟩⟩

theorem samplesOf_count {a : Account} (ha : s.account? h = some a) : (s.count h).samplesOf h = s.samplesOf h + 1 := by
  have hcount : (s.count h).account? h = some a.count := by
    rw [account?_eq_some, object?_count ha, if_pos rfl]
  simp only [samplesOf, hcount, ha]
  rfl

theorem samplesOf_feed (hs : s.Sound) {a : Account} (ha : s.account? h = some a) (v : Value) :
    (s.feed (.handle h) v).store.samplesOf h =
      s.samplesOf h + if (s.feed (.handle h) v).fault = none then 1 else 0 := by
  rcases target_cases hs.tallyless (.handle h) with ht | ⟨_, b, ⟨⟩, hb, hv | ⟨adoptee, c, hl⟩⟩
  · simp [takesSamples, objectOf?, account?_eq_some.mp ha] at ht
  · have hfeed : s.feed (.handle h) v = s.absorb h b v := feedWithin_base hb hv _ v
    have hafter : (s.absorb h b v).store.account? h =
        some (b.receive s.view (s.marks + 1) (v.stamp s.marks)).1 := by
      rw [account?_eq_some, object?_absorb hb, if_pos rfl]
    rw [hfeed, (absorb_spec s h b v).1]
    simp only [samplesOf, hafter, hb, Option.map_some, Option.getD_some, samples_receive]
  · obtain ⟨u, hw, hu⟩ := feed_view_cases hs hl v
    have hold : u.object? h = s.object? h := hw.object h fun h' => Nat.lt_irrefl h (h' h rfl)
    have hacc : u.account? h = some a := account?_eq_some.mpr (hold.trans (account?_eq_some.mp ha))
    rcases hu with he | ⟨f, he⟩
    · rw [he, samplesOf_count hacc, samplesOf_congr hold]
      rfl
    · rw [he]
      exact samplesOf_congr hold

theorem OnSide.takesSamples {a : Account} (ha : s.account? h = some a) (hx : s.OnSide P h x) :
    s.takesSamples (.handle x) = true := by
  cases hx with
  | self => simp [Store.takesSamples, objectOf?, account?_eq_some.mp ha]
  | view hl _ _ =>
    obtain ⟨b, hb, _⟩ := link?_eq_some.mp hl
    simp [Store.takesSamples, objectOf?, account?_eq_some.mp hb]

theorem feed_untapped (hs : s.Sound) {y : Nat} {c : Converter} (hl : s.link? x = some (.handle y, c))
    (hc : c.taps = ∅) (hy : s.takesSamples (.handle y) = true) (v : Value) :
    s.feed (.handle x) v = (Exit.mk s (c.apply s.view v)).andThen fun w s =>
      (s.feed (.handle y) w).andThen fun u => ⟨u.count x, none⟩ := by
  rw [feed_view hs hl hy, Converter.run_of_untapped hc]

theorem samplesOf_andThen_count {o : Outcome} {n : Nat} (hx : x ≠ h)
    (ho : o.store.samplesOf h = n + if o.fault = none then 1 else 0) :
    (o.andThen fun u => ⟨u.count x, none⟩).store.samplesOf h =
      n + if (o.andThen fun u => ⟨u.count x, none⟩).fault = none then 1 else 0 := by
  obtain ⟨u, fault⟩ := o
  cases fault with
  | some f => exact ho
  | none => simpa only [Outcome.andThen, samplesOf, account?_count_of_ne hx] using ho

theorem samplesOf_feed_side (hs : s.Sound) (hP : ∀ c, P c → c.taps = ∅) {a : Account} (ha : s.account? h = some a)
    (hx : s.OnSide P h x) (v : Value) :
    (s.feed (.handle x) v).store.samplesOf h =
      s.samplesOf h + if (s.feed (.handle x) v).fault = none then 1 else 0 := by
  induction hx generalizing v with
  | self => exact samplesOf_feed hs ha v
  | @view x y c hl hc hy ih =>
    have hne : x ≠ h := Nat.ne_of_gt (Nat.lt_of_le_of_lt (hy.le hs.layered) ((hs.layered x _ c hl).1 y rfl))
    rw [feed_untapped hs hl (hP c hc) (hy.takesSamples ha)]
    cases c.apply s.view v with
    | error f => rfl
    | ok w =>
      exact samplesOf_andThen_count hne (ih w)

end

end StreamStat.Store
