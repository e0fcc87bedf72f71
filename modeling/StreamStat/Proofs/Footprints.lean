import Mathlib.Data.Set.Basic
import StreamStat.Proofs.Calls
import StreamStat.Proofs.AccountLikeness

/-!
# Footprints

A sample given to an account can change the account, what its converter feeds, its adoptee, and so on
down the views, and the tapes of the recorders among them. This is its footprint; a call changes
nothing else (`within_feed`).
-/

namespace StreamStat

inductive Place where
  | object (handle : Nat)
  | tape (tape : Nat)
  deriving DecidableEq

namespace Account

def tape? (a : Account) : Option Nat :=
  match a.body with
  | .recorder tape => some tape
  | _ => none

theorem tape?_eq_some {a : Account} {k : Nat} : a.tape? = some k ↔ a.body = .recorder k := by
  unfold tape?
  split <;> simp_all

theorem tape?_receive (o : ObjectView) (mark : Nat) (a : Account) (v : Value) :
    (a.receive o mark v).1.tape? = a.tape? := by
  rcases receive_cases o mark a v with ⟨body, stamp, ht, h⟩ | ⟨f, h⟩ | ⟨least, greatest, less, f, hb, _, _, h⟩
  · rw [h]
    unfold tape?
    generalize a.body = b at ht
    cases ht <;> rfl
  · rw [h]
  · rw [h, tape?, tape?, hb]
    rfl

end Account

namespace Store

def recorder? (s : Store) (handle : Nat) : Option Nat := (s.account? handle).bind Account.tape?

inductive Reaches (s : Store) (h : Nat) : Place → Prop where
  | self : Reaches s h (.object h)
  | adoptee {i k : Nat} {c : Converter} : Reaches s h (.object i) → s.link? i = some (.handle k, c) → Reaches s h (.object k)
  | tap {i k : Nat} {adoptee : Value} {c : Converter} :
      Reaches s h (.object i) → s.link? i = some (adoptee, c) → .handle k ∈ c.taps → Reaches s h (.object k)
  | tape {i k : Nat} : Reaches s h (.object i) → s.recorder? i = some k → Reaches s h (.tape k)

def footprint (s : Store) (h : Nat) : Set Place := {p | s.Reaches h p}

/-- Some places out of which calls on them do not lead. -/
structure Closed (s : Store) (F : Set Place) : Prop where
  adoptee : ∀ {i k c}, .object i ∈ F → s.link? i = some (.handle k, c) → .object k ∈ F
  tap : ∀ {i k adoptee c}, .object i ∈ F → s.link? i = some (adoptee, c) → .handle k ∈ c.taps → .object k ∈ F
  tape : ∀ {i k}, .object i ∈ F → s.recorder? i = some k → .tape k ∈ F

theorem closed_footprint (s : Store) (h : Nat) : s.Closed (s.footprint h) := ⟨.adoptee, .tap, .tape⟩

theorem footprint_of_base {s : Store} {h : Nat} (hl : s.link? h = none) (hr : s.recorder? h = none) :
    s.footprint h = {.object h} := by
  refine Set.ext fun p => ⟨fun hp => ?_, by rintro rfl; exact .self⟩
  induction hp with
  | self => rfl
  | adoptee _ hl' ih => cases ih; rw [hl] at hl'; cases hl'
  | tap _ hl' _ ih => cases ih; rw [hl] at hl'; cases hl'
  | tape _ hr' ih => cases ih; rw [hr] at hr'; cases hr'

theorem recorder?_of_link {s : Store} {h : Nat} {adoptee : Value} {c : Converter} (hl : s.link? h = some (adoptee, c)) :
    s.recorder? h = none := by
  obtain ⟨a, ha, hb⟩ := link?_eq_some.mp hl
  simp [recorder?, ha, Account.tape?, hb]

theorem Closed.footprint_subset {s : Store} {F : Set Place} (hc : s.Closed F) {h : Nat} (hh : .object h ∈ F) :
    s.footprint h ⊆ F := by
  intro p hp
  induction hp with
  | self => exact hh
  | adoptee _ hl ih => exact hc.adoptee ih hl
  | tap _ hl ht ih => exact hc.tap ih hl ht
  | tape _ hr ih => exact hc.tape ih hr

/-- The footprint of a view: the view, and the footprints of its adoptee and of what its converter feeds. -/
theorem footprint_of_view {s : Store} {h k : Nat} {c : Converter} (hl : s.link? h = some (.handle k, c)) :
    s.footprint h = insert (.object h) {p | ∃ i, (i = k ∨ .handle i ∈ c.taps) ∧ p ∈ s.footprint i} := by
  have hh := s.closed_footprint h
  refine Set.Subset.antisymm (fun p hp => ?_) (Set.insert_subset .self ?_)
  · induction hp with
    | self => exact .inl rfl
    | adoptee _ hl' ih =>
      rcases ih with ih | ⟨i, hi, ih⟩
      · cases ih
        rw [hl] at hl'
        cases hl'
        exact .inr ⟨k, .inl rfl, .self⟩
      · exact .inr ⟨i, hi, .adoptee ih hl'⟩
    | tap _ hl' hmem ih =>
      rcases ih with ih | ⟨i, hi, ih⟩
      · cases ih
        rw [hl] at hl'
        cases hl'
        exact .inr ⟨_, .inr hmem, .self⟩
      · exact .inr ⟨i, hi, .tap ih hl' hmem⟩
    | tape _ hr' ih =>
      rcases ih with ih | ⟨i, hi, ih⟩
      · cases ih
        rw [recorder?_of_link hl] at hr'
        cases hr'
      · exact .inr ⟨i, hi, .tape ih hr'⟩
  · rintro p ⟨i, rfl | hi, hp⟩
    · exact hh.footprint_subset (.adoptee .self hl) hp
    · exact hh.footprint_subset (.tap .self hl hi) hp

theorem footprint_of_untapped {s : Store} {h k : Nat} {c : Converter} (hl : s.link? h = some (.handle k, c))
    (ht : c.taps = ∅) : s.footprint h = insert (.object h) (s.footprint k) := by
  simp [footprint_of_view hl, ht]

/-- What a call leaves as it is whose places are in `F`. -/
structure Within (F : Set Place) (s t : Store) : Prop where
  length : t.objects.length = s.objects.length
  tapes : t.tapes.length = s.tapes.length
  object : ∀ h, .object h ∉ F → t.object? h = s.object? h
  tape : ∀ k, .tape k ∉ F → t.tape k = s.tape k
  link : ∀ h, t.link? h = s.link? h
  recorder : ∀ h, t.recorder? h = s.recorder? h
  tallyless : s.Tallyless → t.Tallyless
  changes : t.changes = s.changes
  marks : s.marks ≤ t.marks

variable {F G : Set Place} {s t u : Store}

theorem Within.refl (F : Set Place) (s : Store) : Within F s s :=
  ⟨rfl, rfl, fun _ _ => rfl, fun _ _ => rfl, fun _ => rfl, fun _ => rfl, id, rfl, Nat.le_refl _⟩

theorem Within.trans (h : Within F s t) (h' : Within F t u) : Within F s u where
  length := h'.length.trans h.length
  tapes := h'.tapes.trans h.tapes
  object k hk := (h'.object k hk).trans (h.object k hk)
  tape k hk := (h'.tape k hk).trans (h.tape k hk)
  link k := (h'.link k).trans (h.link k)
  recorder k := (h'.recorder k).trans (h.recorder k)
  tallyless hn := h'.tallyless (h.tallyless hn)
  changes := h'.changes.trans h.changes
  marks := Nat.le_trans h.marks h'.marks

theorem Within.mono (hFG : F ⊆ G) (h : Within F s t) : Within G s t :=
  { h with
    object := fun k hk => h.object k fun hF => hk (hFG hF)
    tape := fun k hk => h.tape k fun hF => hk (hFG hF) }

theorem Closed.within (hc : s.Closed F) (h : Within G s t) : t.Closed F where
  adoptee hi hl := hc.adoptee hi ((h.link _).symm.trans hl)
  tap hi hl := hc.tap hi ((h.link _).symm.trans hl)
  tape hi hr := hc.tape hi ((h.recorder _).symm.trans hr)

theorem Reaches.congr (hl : ∀ i, t.link? i = s.link? i) (hr : ∀ i, t.recorder? i = s.recorder? i) {h : Nat} {p : Place}
    (hp : s.Reaches h p) : t.Reaches h p := by
  induction hp with
  | self => exact .self
  | adoptee _ hl' ih => exact .adoptee ih ((hl _).trans hl')
  | tap _ hl' hmem ih => exact .tap ih ((hl _).trans hl') hmem
  | tape _ hr' ih => exact .tape ih ((hr _).trans hr')

/-- Calls leave footprints as they are. -/
theorem Within.footprint (h : Within F s t) (k : Nat) : t.footprint k = s.footprint k :=
  Set.ext fun _ => ⟨.congr (fun i => (h.link i).symm) fun i => (h.recorder i).symm, .congr h.link h.recorder⟩

/-! ## What calls do within their places -/

theorem within_reserve (F : Set Place) (s : Store) (n : Nat) : Within F s (s.reserve n) :=
  { Within.refl F s with marks := Nat.le_add_right _ _ }

theorem tape_record (s : Store) (k i : Nat) (v : Value) :
    (s.record k v).tape i = if k = i ∧ i < s.tapes.length then s.tape i ++ [v] else s.tape i := by
  simp only [record, tape, List.getElem?_modify]
  by_cases hk : k = i
  · subst hk
    by_cases hl : k < s.tapes.length <;> simp [hl]
  · cases s.tapes[i]? <;> simp [hk]

/-- What an account that takes a sample does to marks and tapes. -/
theorem absorb_frame (s : Store) (h : Nat) (a : Account) (v : Value) :
    (s.absorb h a v).store.marks = s.marks + 2 ∧ (s.absorb h a v).store.changes = s.changes ∧
      (s.absorb h a v).store.tapes.length = s.tapes.length ∧
      ∀ k, (s.absorb h a v).store.tape k =
        if a.tape? = some k ∧ k < s.tapes.length then s.tape k ++ [v.stamp s.marks] else s.tape k := by
  have htape := Account.tape?_receive (s.reserve 1).view (s.reserve 1).marks a (v.stamp s.marks)
  unfold absorb stamp
  dsimp only
  split
  · rename_i tape hb
    rw [Account.tape?_eq_some.mpr hb] at htape
    refine ⟨rfl, rfl, List.length_modify .., fun k => ?_⟩
    simp only [tape_record, ← htape, Option.some.injEq]
    rfl
  · rename_i hb
    refine ⟨rfl, rfl, rfl, fun k => ?_⟩
    rw [if_neg]
    · rfl
    · rw [← htape, Account.tape?_eq_some]
      exact fun hk => hb k hk.1

theorem within_absorb {h : Nat} {a : Account} (hc : s.Closed F) (hF : .object h ∈ F) (ha : s.account? h = some a)
    (hv : a.isView = false) (v : Value) : Within F s (s.absorb h a v).store := by
  obtain ⟨hm, hch, hl, htape⟩ := absorb_frame s h a v
  have hs := (Step.absorb false v ha hv).steps
  refine ⟨hs.length_eq, hl, ?_, ?_, hs.link?, ?_, hs.tallyless, hch, by omega⟩
  · intro k hk
    rw [object?_absorb ha, if_neg]
    rintro rfl
    exact hk hF
  · intro k hk
    rw [htape, if_neg]
    rintro ⟨hk', _⟩
    refine hk (hc.tape hF ?_)
    rw [recorder?, ha]
    exact hk'
  · intro k
    by_cases hk : k = h
    · subst hk
      simp only [recorder?, account?, object?_absorb ha, if_true, account?_eq_some.mp ha, Option.bind_some]
      exact Account.tape?_receive ..
    · simp only [recorder?, account?, object?_absorb ha, hk, if_false]

theorem within_count {h : Nat} {a : Account} (hF : .object h ∈ F) (ha : s.account? h = some a) (hv : a.isView = true) :
    Within F s (s.count h) := by
  have hs := (Step.count false ha hv).steps
  have htapes : (s.count h).tapes = s.tapes ∧ (s.count h).changes = s.changes ∧ (s.count h).marks = s.marks := by
    simp only [count, ha]
    exact ⟨rfl, rfl, rfl⟩
  refine ⟨hs.length_eq, congrArg List.length htapes.1, ?_, ?_, hs.link?, ?_, hs.tallyless, htapes.2.1,
    Nat.le_of_eq htapes.2.2.symm⟩
  · intro k hk
    rw [object?_count ha, if_neg]
    rintro rfl
    exact hk hF
  · intro k _
    simp only [tape, htapes.1]
  · intro k
    by_cases hk : k = h
    · subst hk
      simp only [recorder?, account?, object?_count ha, if_true, account?_eq_some.mp ha, Option.bind_some]
      rfl
    · simp only [recorder?, account?, object?_count ha, hk, if_false]

/-! ## Calls -/

def forward (call : Value → Value → Store → Outcome) (handle : Nat) (adoptee v : Value) (s : Store) : Outcome :=
  (call v adoptee s).andThen fun s => ⟨s.count handle, none⟩

theorem feedWithin_base {h : Nat} {a : Account} (ha : s.account? h = some a) (hv : a.isView = false) (depth : Nat)
    (v : Value) : feedWithin (depth + 1) v (.handle h) s = s.absorb h a v := by
  rw [← tracedWithin_outcome _ false, tracedWithin_base ha hv]
  rfl

theorem feedWithin_view {h : Nat} {adoptee : Value} {c : Converter} (hl : s.link? h = some (adoptee, c)) (depth : Nat)
    (v : Value) :
    feedWithin (depth + 1) v (.handle h) s =
      if s.takesSamples adoptee then
        ((c.program v).run (feedWithin depth) s).andThen (forward (feedWithin depth) h adoptee)
      else ⟨s, some .noAttribute⟩ := by
  obtain ⟨a, ha, hb⟩ := link?_eq_some.mp hl
  simp only [feedWithin, objectOf?, account?_eq_some.mp ha, hb]
  rfl

/-- Only accounts and tallies take samples. -/
theorem feedWithin_of_takesNone {target : Value} (ht : s.takesSamples target = false) (depth : Nat) (v : Value) :
    feedWithin (depth + 1) v target s = ⟨s, some .noAttribute⟩ := by
  cases target with
  | handle h =>
    simp only [takesSamples, objectOf?] at ht
    simp only [feedWithin, objectOf?]
    generalize s.object? h = x at ht
    rcases x with _ | x
    · rfl
    · cases x <;> first | rfl | cases ht
  | _ => rfl

/-- Where there are no tallies, a target takes no samples, or it is a base or a view. -/
theorem target_cases (hn : s.Tallyless) (target : Value) :
    s.takesSamples target = false ∨ ∃ h a, target = .handle h ∧ s.account? h = some a ∧
      (a.isView = false ∨ ∃ adoptee c, s.link? h = some (adoptee, c)) := by
  cases target with
  | handle h =>
    cases hx : s.object? h with
    | none => exact .inl (by simp [takesSamples, objectOf?, hx])
    | some x =>
      cases x with
      | tally t => exact absurd hx (hn h t)
      | account a =>
        have ha : s.account? h = some a := account?_eq_some.mpr hx
        refine .inr ⟨h, a, rfl, ha, ?_⟩
        cases hb : a.body with
        | view adoptee c => exact .inr ⟨adoptee, c, link?_eq_some.mpr ⟨a, ha, hb⟩⟩
        | _ => exact .inl (by simp [Account.isView, hb])
      | _ => exact .inl (by simp [takesSamples, objectOf?, hx])
  | _ => exact .inl rfl

theorem within_andThen {o : Outcome} {f : Store → Outcome} (ho : Within F s o.store)
    (hf : o.fault = none → Within F o.store (f o.store).store) : Within F s (o.andThen f).store := by
  unfold Outcome.andThen
  split
  · exact ho.trans (hf ‹_›)
  · exact ho

theorem within_exit {e : Exit} {f : Value → Store → Outcome} (he : Within F s e.store)
    (hf : ∀ v, Within F e.store (f v e.store).store) : Within F s (e.andThen f).store := by
  unfold Exit.andThen
  split
  · exact he.trans (hf _)
  · exact he

theorem within_run {call : Value → Value → Store → Outcome} {p : Program}
    (hcall : ∀ v t u, p.Feeds t → Within F s u → Within F u (call v t u).store) : Within F s (p.run call s).store := by
  refine Program.run_keeps (P := Within F s) (.refl F s) fun {target sample next u} hq hu => ?_
  have hu' := hu.trans (within_reserve F u 1)
  exact hu'.trans (hcall _ _ _ (hq.feeds .now) hu')

def Enters (F : Set Place) (target : Value) : Prop := ∀ h, target = .handle h → .object h ∈ F

theorem Closed.enters_adoptee (hc : s.Closed F) {h : Nat} (hF : .object h ∈ F) {adoptee : Value} {c : Converter}
    (hl : s.link? h = some (adoptee, c)) : Enters F adoptee := by
  rintro k rfl
  exact hc.adoptee hF hl

theorem Closed.enters_tap (hc : s.Closed F) {h : Nat} (hF : .object h ∈ F) {adoptee : Value} {c : Converter}
    (hl : s.link? h = some (adoptee, c)) : ∀ t ∈ c.taps, Enters F t := by
  rintro t ht k rfl
  exact hc.tap hF hl ht

theorem within_forward {call : Value → Value → Store → Outcome} {h : Nat} (hF : .object h ∈ F) {adoptee : Value}
    {c : Converter} (hl : s.link? h = some (adoptee, c)) {w : Value} (hcall : Within F s (call w adoptee s).store) :
    Within F s (forward call h adoptee w s).store := by
  refine within_andThen hcall fun _ => ?_
  obtain ⟨a, ha, hb⟩ := link?_eq_some.mp ((hcall.link h).trans hl)
  exact within_count hF ha (Account.isView_of_body hb)

/-- A call does not leave the places that its target reaches. -/
theorem within_feedWithin (depth : Nat) {v target : Value} (hn : s.Tallyless) (hc : s.Closed F)
    (ht : Enters F target) : Within F s (feedWithin depth v target s).store := by
  induction depth generalizing v target s with
  | zero => exact .refl F s
  | succ depth ih =>
    rcases target_cases hn target with hr | ⟨h, a, rfl, ha, hv | ⟨adoptee, c, hl⟩⟩
    · rw [feedWithin_of_takesNone hr]
      exact .refl F s
    · rw [feedWithin_base ha hv]
      exact within_absorb hc (ht h rfl) ha hv v
    · have hF := ht h rfl
      have call {w t : Value} (ht : Enters F t) {u : Store} (hu : Within F s u) :
          Within F u (feedWithin depth w t u).store :=
        ih (hu.tallyless hn) (hc.within hu) ht
      have hrun : Within F s ((c.program v).run (feedWithin depth) s).store :=
        within_run fun w t u ht hu => call (hc.enters_tap hF hl t ⟨v, ht⟩) hu
      rw [feedWithin_view hl]
      split
      · exact within_exit hrun fun w =>
          within_forward hF ((hrun.link h).trans hl) (call (hc.enters_adoptee hF hl) hrun)
      · exact .refl F s

theorem within_feed {v target : Value} (hn : s.Tallyless) (hc : s.Closed F) (ht : Enters F target) :
    Within F s (s.feed target v).store :=
  within_feedWithin _ hn hc ht

end Store

end StreamStat
