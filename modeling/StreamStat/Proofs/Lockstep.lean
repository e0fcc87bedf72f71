import StreamStat.Proofs.Footprints

/-!
# Calls in step

Two stores go in step at some places if these hold the same up to a pairing of marks. A sample given
to an account in both of them keeps them in step at its footprint, with a larger pairing, and comes
back or fails in both (`feed_inStep`).
-/

namespace StreamStat

/-! ## Growing pairings -/

def widen (R : Nat → Nat → Prop) (p q n : Nat) (i j : Nat) : Prop := R i j ∨ ∃ d < n, i = p + d ∧ j = q + d

section
variable {m p q : Nat} {R : Nat → Nat → Prop}

theorem widen_new (n : Nat) {d : Nat} (hd : d < n) : widen R p q n (p + d) (q + d) := .inr ⟨d, hd, rfl, rfl⟩

theorem Pairing.widen (hR : Pairing m R) (hfresh : ∀ i j, R i j → i < p ∧ j < q) (n : Nat) :
    Pairing m (widen R p q n) where
  pos := hR.pos
  old k hk := .inl (hR.old k hk)
  unique := by
    rintro i j k l (hik | ⟨d, _, rfl, rfl⟩) (hjl | ⟨e, _, rfl, rfl⟩)
    · exact hR.unique hik hjl
    · have := hfresh i k hik
      omega
    · have := hfresh j l hjl
      omega
    · omega

end

inductive Object.Like (R : Nat → Nat → Prop) (U : Set Nat) : Object → Object → Prop
  | account {a b : Account} : a.Like R U b → Like R U (.account a) (.account b)
  | other {x : Object} : (∀ a, x ≠ .account a) → Like R U x x

namespace Object

variable {R S : Nat → Nat → Prop} {U V : Set Nat} {x y z : Object}

theorem Like.mono (hRS : ∀ i j, R i j → S i j) (hUV : U ⊆ V) : x.Like R U y → x.Like S V y
  | .account h => .account (h.mono hRS hUV)
  | .other h => .other h

theorem Like.meet (h : x.Like R U z) (h' : y.Like S U z) : x.Like (fun i j => ∃ k, R i k ∧ S j k) U y := by
  cases h with
  | account h =>
    cases h' with
    | account h' => exact .account (h.meet h')
    | other hz => exact absurd rfl (hz _)
  | other hz =>
    cases h' with
    | account h' => exact absurd rfl (hz _)
    | other _ => exact .other hz

end Object

namespace Account

variable {R : Nat → Nat → Prop} {U : Set Nat} {a b : Account}

theorem tape?_like (h : a.Like R U b) : a.tape? = b.tape? := by
  have hb := h.body
  unfold tape?
  generalize a.body = x, b.body = y at hb
  cases hb <;> rfl

theorem isView_like (h : a.Like R U b) : a.isView = b.isView := by
  have hb := h.body
  unfold isView
  generalize a.body = x, b.body = y at hb
  cases hb <;> rfl

end Account

namespace Store

/-- The bottom of what two stores have in common: without tallies, with converters that are
functions, and with objects `U` that look the same whatever becomes of the places `H`. -/
structure Ground (base : Store) (H : Set Place) (U : Set Nat) : Prop where
  tallyless : base.Tallyless
  functional : ∀ {h adoptee c}, .object h ∈ H → base.link? h = some (adoptee, c) → c.IsFunctional base.marks U
  steady : ∀ t, Within H base t → base.view.Agree U t.view

/-- Two stores that have come from one are the same at the places `F` up to a pairing of marks. -/
structure InStep (base : Store) (H : Set Place) (U : Set Nat) (F : Set Place) (R : Nat → Nat → Prop) (s t : Store) :
    Prop where
  left : Within H base s
  right : Within H base t
  pairing : Pairing base.marks R
  fresh : ∀ i j, R i j → i < s.marks ∧ j < t.marks
  object : ∀ h, .object h ∈ F → Option.Rel (Object.Like R U) (s.object? h) (t.object? h)
  tape : ∀ k, .tape k ∈ F → Value.LikeAll R U (s.tape k) (t.tape k)

structure Grows (R R' : Nat → Nat → Prop) (s s' : Store) : Prop where
  sub : ∀ i j, R i j → R' i j
  new : ∀ i j, R' i j → R i j ∨ s.marks ≤ i
  marks : s.marks ≤ s'.marks

section
variable {R R' R'' : Nat → Nat → Prop} {s s' s'' : Store}

theorem Grows.refl (R : Nat → Nat → Prop) (s : Store) : Grows R R s s := ⟨fun _ _ h => h, fun _ _ h => .inl h, Nat.le_refl _⟩

theorem Grows.trans (h : Grows R R' s s') (h' : Grows R' R'' s' s'') : Grows R R'' s s'' where
  sub i j hij := h'.sub i j (h.sub i j hij)
  new i j hij := (h'.new i j hij).elim (h.new i j) fun hi => .inr (Nat.le_trans h.marks hi)
  marks := Nat.le_trans h.marks h'.marks

theorem grows_widen (R : Nat → Nat → Prop) (q n : Nat) (h : s.marks ≤ s'.marks) : Grows R (widen R s.marks q n) s s' where
  sub _ _ h := .inl h
  new := by
    rintro i j (h | ⟨d, _, rfl, _⟩)
    · exact .inl h
    · exact .inr (Nat.le_add_right _ _)
  marks := h

end

section
variable {base : Store} {H F : Set Place} {U : Set Nat} {R R' : Nat → Nat → Prop} {s s' t t' : Store}

theorem Ground.agree (hG : Ground base H U) (hs : Within H base s) (ht : Within H base t) : s.view.Agree U t.view where
  text i hi := ((hG.steady s hs).text i hi).symm.trans ((hG.steady t ht).text i hi)
  written i hi := ((hG.steady s hs).written i hi).symm.trans ((hG.steady t ht).written i hi)
  equal i hi j hj := ((hG.steady s hs).equal i hi j hj).symm.trans ((hG.steady t ht).equal i hi j hj)

theorem Ground.within (hG : Ground base H U) (hm : 0 < base.marks) (hs : Within H base s) : Ground s H U where
  tallyless := hs.tallyless hG.tallyless
  functional hh hl := (hG.functional hh ((hs.link _).symm.trans hl)).mono hm hs.marks
  steady _ ht := hG.agree hs (hs.trans ht)

theorem InStep.account (hi : InStep base H U F R s t) {h : Nat} (hF : .object h ∈ F) {a : Account}
    (ha : s.account? h = some a) : ∃ b, t.account? h = some b ∧ a.Like R U b := by
  have hrel := hi.object h hF
  rw [account?_eq_some.mp ha] at hrel
  generalize hy : t.object? h = y at hrel
  cases hrel with
  | some hlike =>
    cases hlike with
    | account hab => exact ⟨_, account?_eq_some.mpr hy, hab⟩
    | other hx => exact absurd rfl (hx a)

theorem InStep.takesSamples (hi : InStep base H U F R s t) {target : Value} (ht : Enters F target) :
    s.takesSamples target = t.takesSamples target := by
  cases target with
  | handle h =>
    have hrel := hi.object h (ht h rfl)
    simp only [Store.takesSamples, objectOf?]
    generalize s.object? h = x, t.object? h = y at hrel
    cases hrel with
    | none => rfl
    | some hlike => cases hlike <;> rfl
  | _ => rfl

theorem InStep.reserve (hi : InStep base H U F R s t) (n : Nat) :
    InStep base H U F (widen R s.marks t.marks n) (s.reserve n) (t.reserve n) where
  left := hi.left.trans (within_reserve H s n)
  right := hi.right.trans (within_reserve H t n)
  pairing := hi.pairing.widen hi.fresh n
  fresh := by
    rintro i j (h | ⟨d, hd, rfl, rfl⟩)
    · have := hi.fresh i j h
      exact ⟨Nat.lt_add_right n this.1, Nat.lt_add_right n this.2⟩
    · exact ⟨Nat.add_lt_add_left hd _, Nat.add_lt_add_left hd _⟩
  object h hF := by
    have hrel := hi.object h hF
    simp only [object?_reserve]
    generalize s.object? h = x, t.object? h = y at hrel
    cases hrel with
    | none => exact .none
    | some hlike => exact .some (hlike.mono (fun _ _ => .inl) subset_rfl)
  tape k hF := (hi.tape k hF).mono (fun _ _ => .inl) subset_rfl

/-- What happens to one of two stores elsewhere leaves them in step. -/
theorem InStep.frame (hi : InStep base H U F R s t) {G : Set Place} (hw : Within G s s') (hl : Within H base s')
    (hout : ∀ p ∈ F, p ∉ G) : InStep base H U F R s' t :=
  { hi with
    left := hl
    fresh := fun i j hij => ⟨Nat.lt_of_lt_of_le (hi.fresh i j hij).1 hw.marks, (hi.fresh i j hij).2⟩
    object := fun x hx => (hw.object x (hout _ hx)).symm ▸ hi.object x hx
    tape := fun x hx => (hw.tape x (hout _ hx)).symm ▸ hi.tape x hx }

def Continues (base : Store) (H : Set Place) (U : Set Nat) (F : Set Place) (R : Nat → Nat → Prop) (s : Store)
    (o o' : Outcome) : Prop :=
  o.fault = o'.fault ∧ ∃ R', Grows R R' s o.store ∧ InStep base H U F R' o.store o'.store

theorem InStep.continues (hi : InStep base H U F R s t) (fault : Option Fault) :
    Continues base H U F R s ⟨s, fault⟩ ⟨t, fault⟩ :=
  ⟨rfl, R, .refl R s, hi⟩

theorem Continues.of_grows {o o' : Outcome} (hg : Grows R R' s s') (h : Continues base H U F R' s' o o') :
    Continues base H U F R s o o' := by
  obtain ⟨hfault, R'', hg', hi⟩ := h
  exact ⟨hfault, R'', hg.trans hg', hi⟩

theorem Continues.andThen {o o' : Outcome} {f g : Store → Outcome} (h : Continues base H U F R s o o')
    (hf : ∀ R', Grows R R' s o.store → InStep base H U F R' o.store o'.store →
      Continues base H U F R' o.store (f o.store) (g o'.store)) :
    Continues base H U F R s (o.andThen f) (o'.andThen g) := by
  obtain ⟨hfault, R', hg, hi⟩ := h
  obtain ⟨hfault', R'', hg', hi'⟩ := hf R' hg hi
  unfold Outcome.andThen
  rw [← hfault]
  cases ho : o.fault with
  | none => exact ⟨hfault', R'', hg.trans hg', hi'⟩
  | some x => exact ⟨ho.trans (ho.symm.trans hfault), R', hg, hi⟩

theorem Continues.of_run {e e' : Exit} {f g : Value → Store → Outcome} (hg : Grows R R' s e.store)
    (hi : InStep base H U F R' e.store e'.store) (hresult : Accord (Value.Like R' U) e.result e'.result)
    (hf : ∀ v w, v.Like R' U w → Continues base H U F R' e.store (f v e.store) (g w e'.store)) :
    Continues base H U F R s (e.andThen f) (e'.andThen g) := by
  obtain ⟨u, x⟩ := e
  obtain ⟨u', y⟩ := e'
  cases hresult with
  | error x => exact (hi.continues _).of_grows hg
  | ok hvw => exact (hf _ _ hvw).of_grows hg

/-- Programs that are alike keep stores in step if their calls do. -/
theorem InStep.run (hG : Ground base H U) {p q : Program} (hpq : p.Like base.marks U R q) (hi : InStep base H U F R s t)
    {f g : Value → Value → Store → Outcome}
    (hcall : ∀ {target v w R' u u'}, p.Feeds target → InStep base H U F R' u u' → v.Like R' U w →
      Continues base H U F R' u (f v target u) (g w target u')) :
    ∃ R', Grows R R' s (p.run f s).store ∧ InStep base H U F R' (p.run f s).store (q.run g t).store ∧
      Accord (Value.Like R' U) (p.run f s).result (q.run g t).result := by
  induction hpq generalizing s t with
  | finish h => exact ⟨_, .refl _ s, hi, h⟩
  | look _ ih => exact ih _ _ (hG.agree hi.left hi.right) hi fun ht => hcall (.look _ ht)
  | @feed R target v w next next' hvw _ ih =>
    have hr := hi.reserve 1
    have hv : (v.stamp s.marks).Like (widen R s.marks t.marks 1) U (w.stamp t.marks) :=
      Value.like_stamp hr.pairing (hvw.mono (fun _ _ => .inl) subset_rfl) (widen_new 1 (d := 0) (by omega))
    obtain ⟨hfault, R', hg, hi'⟩ := hcall .now hr hv
    have hg' := (grows_widen R t.marks 1 (Nat.le_add_right _ _)).trans hg
    by_cases hend : (f (v.stamp s.marks) target (s.reserve 1)).fault = some .endless
    · rw [Program.run_feed_of_endless hend, Program.run_feed_of_endless (hfault ▸ hend)]
      exact ⟨R', hg', hi', .error _⟩
    · rw [Program.run_feed_of_ends rfl hend, Program.run_feed_of_ends rfl (hfault ▸ hend), ← hfault]
      obtain ⟨R'', hg'', h⟩ := ih R' _ _ _ hi'.pairing hg'.sub (hv.mono hg.sub subset_rfl) hi'
        fun ht => hcall (.later _ _ ht)
      exact ⟨R'', hg'.trans hg'', h⟩

/-! ## Steps of calls -/

section
variable (hFH : F ⊆ H) (hc : base.Closed F)
include hFH hc

theorem InStep.absorb (hG : Ground base H U) (hi : InStep base H U F R s t) {h : Nat} (hF : .object h ∈ F) {a b : Account}
    (ha : s.account? h = some a) (hb : t.account? h = some b) (hab : a.Like R U b) (hv : a.isView = false)
    {v w : Value} (hvw : v.Like R U w) :
    Continues base H U F R s (s.absorb h a v) (t.absorb h b w) := by
  obtain ⟨hm, _, _, htape⟩ := absorb_frame s h a v
  obtain ⟨hm', _, _, htape'⟩ := absorb_frame t h b w
  have hr := hi.reserve 2
  have hsub : ∀ i j, R i j → widen R s.marks t.marks 2 i j := fun _ _ => .inl
  have hnew : widen R s.marks t.marks 2 s.marks t.marks := widen_new 2 (d := 0) (by omega)
  have hstamp := Value.like_stamp hr.pairing (hvw.mono hsub subset_rfl) hnew
  obtain ⟨hlike, hfault⟩ := Account.receive_like hr.pairing (hG.agree hi.left hi.right) (hab.mono hsub subset_rfl)
    (widen_new (R := R) 2 (d := 1) (by omega)) hstamp
  refine ⟨?_, _, grows_widen R t.marks 2 (by omega), ?_⟩
  · rw [(absorb_spec s h a v).1, (absorb_spec t h b w).1, hfault]
  refine ⟨hi.left.trans ((within_absorb (hc.within hi.left) hF ha hv v).mono hFH),
    hi.right.trans ((within_absorb (hc.within hi.right) hF hb ((Account.isView_like hab).symm.trans hv) w).mono hFH), hr.pairing, ?_, ?_, ?_⟩
  · rw [hm, hm']
    exact hr.fresh
  · intro k hk
    rw [object?_absorb ha, object?_absorb hb]
    split
    · exact .some (.account hlike)
    · exact hr.object k hk
  · intro k hk
    rw [htape, htape', Account.tape?_like hab, hi.left.tapes, hi.right.tapes]
    split
    · exact Value.likeAll_iff.mpr (List.rel_append (Value.likeAll_iff.mp (hr.tape k hk)) (.cons hstamp .nil))
    · exact hr.tape k hk

omit hc in
theorem InStep.count (hi : InStep base H U F R s t) {h : Nat} (hF : .object h ∈ F) {adoptee : Value} {c : Converter}
    (hl : base.link? h = some (adoptee, c)) :
    Continues base H U F R s ⟨s.count h, none⟩ ⟨t.count h, none⟩ := by
  obtain ⟨a, ha, hbody⟩ := link?_eq_some.mp ((hi.left.link h).trans hl)
  obtain ⟨b, hb, hab⟩ := hi.account hF ha
  have hv := Account.isView_of_body hbody
  have hframe : ∀ {u : Store} {d : Account}, u.account? h = some d →
      (u.count h).marks = u.marks ∧ (u.count h).tapes = u.tapes := fun hd => by
    simp only [Store.count, hd]
    exact ⟨rfl, rfl⟩
  refine ⟨rfl, R, ⟨fun _ _ h => h, fun _ _ h => .inl h, Nat.le_of_eq (hframe ha).1.symm⟩, ?_⟩
  refine ⟨hi.left.trans ((within_count hF ha hv).mono hFH),
    hi.right.trans ((within_count hF hb ((Account.isView_like hab).symm.trans hv)).mono hFH), hi.pairing, ?_, ?_, ?_⟩
  · rw [(hframe ha).1, (hframe hb).1]
    exact hi.fresh
  · intro k hk
    rw [object?_count ha, object?_count hb]
    split
    · exact .some (.account (Account.count_like hab))
    · exact hi.object k hk
  · intro k hk
    simp only [Store.tape, (hframe ha).2, (hframe hb).2]
    exact hi.tape k hk

/-- A sample given to an account in two stores that are in step keeps them in step. -/
theorem feedWithin_inStep (hG : Ground base H U) (depth : Nat) {v w target : Value} (hi : InStep base H U F R s t)
    (hvw : v.Like R U w) (ht : Enters F target) :
    Continues base H U F R s (feedWithin depth v target s) (feedWithin depth w target t) := by
  induction depth generalizing v w target R s t with
  | zero => exact hi.continues _
  | succ depth ih =>
    rcases target_cases (hi.left.tallyless hG.tallyless) target with hr | ⟨h, a, rfl, ha, hv | ⟨adoptee, c, hl⟩⟩
    · rw [feedWithin_of_takesNone hr, feedWithin_of_takesNone ((hi.takesSamples ht).symm.trans hr)]
      exact hi.continues _
    · obtain ⟨b, hb, hab⟩ := hi.account (ht h rfl) ha
      rw [feedWithin_base ha hv, feedWithin_base hb ((Account.isView_like hab).symm.trans hv)]
      exact hi.absorb hFH hc hG (ht h rfl) ha hb hab hv hvw
    · have hF := ht h rfl
      have hl' := (hi.left.link h).symm.trans hl
      rw [feedWithin_view hl, feedWithin_view ((hi.right.link h).trans hl'), hi.takesSamples (hc.enters_adoptee hF hl')]
      split
      · have hpq := hG.functional (hFH hF) hl' R v w hi.pairing hvw
        obtain ⟨R', hg, hi', hresult⟩ := hi.run hG hpq (f := feedWithin depth) (g := feedWithin depth)
          fun ht hu hvw => ih hu hvw (hc.enters_tap hF hl' _ ⟨v, ht⟩)
        refine .of_run hg hi' hresult fun v w hvw => ?_
        exact (ih hi' hvw (hc.enters_adoptee hF hl')).andThen fun R'' _ hi'' => hi''.count hFH hF hl'
      · exact hi.continues _

theorem feed_inStep (hG : Ground base H U) {v w target : Value} (hi : InStep base H U F R s t)
    (hvw : v.Like R U w) (ht : Enters F target) :
    Continues base H U F R s (s.feed target v) (t.feed target w) := by
  unfold feed
  rw [hi.left.length, hi.right.length]
  exact feedWithin_inStep hFH hc hG _ hi hvw ht

end

end

end Store

end StreamStat
