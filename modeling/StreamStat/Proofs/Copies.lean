import StreamStat.Proofs.Independence
import StreamStat.Proofs.Twins

/-!
# Copies of accounts

A copy of an account starts with what the account keeps, and has its own from then on: what becomes of
one of the two does not depend on the calls on the other one and its views. The copy of a view
shares the adoptee, so that its count is its own, but what the adoptee refuses may depend on both.
-/

namespace StreamStat.Store

/-! ## Accounts that refer to the same -/

/-- An account and a later one that refers to what it refers to. -/
structure Siblings (h k : Nat) (s : Store) : Prop where
  sound : s.Sound
  lt : h < k
  account : (∃ a, s.account? h = some a) ∧ ∃ a, s.account? k = some a
  link : s.link? k = s.link? h

namespace Siblings

variable {P : Converter → Prop} {Q : Value → Prop} {h k : Nat} {s : Store}

theorem feed (hi : Siblings h k s) (target v : Value) : Siblings h k (s.feed target v).store := by
  have hs := steps_feed hi.sound.tallyless target v
  obtain ⟨⟨a, ha⟩, b, hb⟩ := hi.account
  exact ⟨hs.sound hi.sound, hi.lt, ⟨⟨_, hs.account? ha⟩, _, hs.account? hb⟩,
    (hs.link? k).trans (hi.link.trans (hs.link? h).symm)⟩

theorem lt_next (hi : Siblings h k s) : h < s.next ∧ k < s.next := by
  obtain ⟨⟨a, ha⟩, b, hb⟩ := hi.account
  exact ⟨lt_of_account? ha, lt_of_account? hb⟩

theorem adapt (hi : Siblings h k s) {x : Nat} (hx : x ∈ s.side P h ∪ s.side P k) {c : Converter} (hc : c.taps = ∅) :
    Siblings h k (s.adapt (.handle x) c) := by
  obtain ⟨hh, hk⟩ := hi.lt_next
  obtain ⟨⟨a, ha⟩, b, hb⟩ := hi.account
  refine ⟨sound_adapt hi.sound (hx.elim (OnSide.lt_next hh) (OnSide.lt_next hk)) hc, hi.lt,
    ⟨⟨a, account?_adapt _ _ ha⟩, b, account?_adapt _ _ hb⟩, ?_⟩
  rw [link?_adapt_of_lt _ _ hh, link?_adapt_of_lt _ _ hk, hi.link]

theorem apart (hi : Siblings h k s) : h ∉ s.side P k ∧ k ∉ s.side P h := by
  refine ⟨fun hh => Nat.not_lt.mpr (OnSide.le hi.sound.layered hh) hi.lt, fun hk => ?_⟩
  -- the later account could only be a view of the earlier one, but it refers to what that one refers to
  cases hk with
  | self => exact Nat.lt_irrefl _ hi.lt
  | @view _ y c hl _ hy =>
    have hlt : y < h := (hi.sound.layered h _ c (hi.link.symm.trans hl)).1 y rfl
    exact Nat.not_lt.mpr (hy.le hi.sound.layered) hlt

/-- A call on the side of either account is counted by it if and only if it comes back, and never by the
other one. -/
theorem counts (hi : Siblings h k s) (hP : ∀ c, P c → c.taps = ∅) (x : Nat) (v : Value) :
    (x ∈ s.side P h →
      (s.feed (.handle x) v).store.samplesOf h =
          s.samplesOf h + (if (s.feed (.handle x) v).fault = none then 1 else 0) ∧
        (s.feed (.handle x) v).store.samplesOf k = s.samplesOf k) ∧
    (x ∈ s.side P k →
      (s.feed (.handle x) v).store.samplesOf k =
          s.samplesOf k + (if (s.feed (.handle x) v).fault = none then 1 else 0) ∧
        (s.feed (.handle x) v).store.samplesOf h = s.samplesOf h) := by
  obtain ⟨⟨a, ha⟩, b, hb⟩ := hi.account
  have hleft : s.RefersBelow h h := hi.sound.layered h
  have hright : s.RefersBelow k h := fun adoptee c hl => hi.sound.layered h adoptee c (hi.link.symm.trans hl)
  refine ⟨fun hx => ⟨samplesOf_feed_side hi.sound hP ha hx v, ?_⟩,
    fun hx => ⟨samplesOf_feed_side hi.sound hP hb hx v, ?_⟩⟩
  · exact samplesOf_congr (object?_feed_of_notMem hi.sound hP hleft hx v hi.apart.2 (Nat.le_of_lt hi.lt))
  · exact samplesOf_congr (object?_feed_of_notMem hi.sound hP hright hx v hi.apart.1 (Nat.le_refl h))

theorem after {ms as cs : List Move} (hi : Siblings h k s) (hP : ∀ c, P c → c.taps = ∅)
    (hms : Interleaves P Q h k s ms as cs) : Siblings h k (s.after ms) := by
  induction hms with
  | nil s => exact hi
  | adapt hx hc _ ih => exact ih (hi.adapt hx (hP _ hc))
  | left hx hv _ ih => rw [after_feed]; exact ih (hi.feed _ _)
  | right hx hv _ ih => rw [after_feed]; exact ih (hi.feed _ _)

end Siblings

def isCall : Move → Bool
  | .feed _ _ => true
  | _ => false

def AllReturn : List Move → Store → Prop
  | [], _ => True
  | m :: ms, s => (s.perform m).outcome.fault = none ∧ AllReturn ms (s.perform m).outcome.store

def converted (s : Store) (path : List (Nat × Converter)) (v : Value) : List Delivery :=
  match Converter.applyAll (path.map Prod.snd) s.view v with
  | .ok w => [⟨s.view, w.stamp s.marks⟩]
  | .error _ => []

inductive Receives (b : Nat) : Store → List Move → List Delivery → Prop where
  | nil (s : Store) : Receives b s [] []
  | adapt {s : Store} {adoptee : Value} {c : Converter} {ms : List Move} {ds : List Delivery}
      (hms : Receives b (s.adapt adoptee c) ms ds) : Receives b s (.adapt adoptee c :: ms) ds
  | call {s : Store} {target v : Value} {path : List (Nat × Converter)} {ms : List Move} {ds : List Delivery}
      (hc : Chain s b target path) (hms : Receives b (s.feed target v).store ms ds) :
      Receives b s (.feed target v :: ms) (s.converted path v ++ ds)

namespace Siblings

variable {P : Converter → Prop} {Q : Value → Prop} {h k : Nat} {s : Store} {ms as cs : List Move}

theorem counts_of_return (hi : Siblings h k s) (hP : ∀ c, P c → c.taps = ∅) (hms : Interleaves P Q h k s ms as cs)
    (hr : AllReturn ms s) :
    (s.after ms).samplesOf h = s.samplesOf h + as.countP isCall ∧
      (s.after ms).samplesOf k = s.samplesOf k + cs.countP isCall := by
  induction hms with
  | nil s => exact ⟨rfl, rfl⟩
  | @adapt s x c ms as cs hx hc _ ih =>
    obtain ⟨hh, hk⟩ := hi.lt_next
    have hold {y : Nat} (hy : y < s.next) : (s.adapt (.handle x) c).samplesOf y = s.samplesOf y :=
      samplesOf_congr (object?_adapt_of_lt _ _ hy)
    have ih := ih (hi.adapt hx (hP c hc)) hr.2
    rw [hold hh, hold hk] at ih
    exact ih
  | @left s x v ms as cs hx hv _ ih =>
    obtain ⟨hf, hr⟩ := hr
    simp only [perform, traced_outcome] at hf hr
    obtain ⟨hown, hother⟩ := (hi.counts hP x v).1 hx
    obtain ⟨ihh, ihk⟩ := ih (hi.feed _ _) hr
    rw [after_feed, ihh, ihk, hown, hother, if_pos hf, List.countP_cons_of_pos rfl]
    exact ⟨by omega, rfl⟩
  | @right s x v ms as cs hx hv _ ih =>
    obtain ⟨hf, hr⟩ := hr
    simp only [perform, traced_outcome] at hf hr
    obtain ⟨hown, hother⟩ := (hi.counts hP x v).2 hx
    obtain ⟨ihh, ihk⟩ := ih (hi.feed _ _) hr
    rw [after_feed, ihh, ihk, hown, hother, if_pos hf, List.countP_cons_of_pos rfl]
    exact ⟨rfl, by omega⟩

end Siblings

structure Meet (b h k : Nat) (s : Store) : Prop extends Siblings h k s where
  base : ∃ d, s.account? b = some d ∧ d.isView = false
  left : s.OnSide Converter.IsUntapped b h
  right : s.OnSide Converter.IsUntapped b k

theorem Siblings.meet {b h k : Nat} {s : Store} (hi : Siblings h k s) {a d : Account} (ha : s.account? h = some a)
    (hv : a.isView = true) (hb : s.account? b = some d) (hd : d.isView = false)
    (hh : s.OnSide Converter.IsUntapped b h) : Meet b h k s := by
  refine ⟨hi, ⟨d, hb, hd⟩, hh, ?_⟩
  cases hh with
  | self =>
    rw [ha] at hb
    cases hb
    rw [hv] at hd
    cases hd
  | view hx hc hy => exact .view (hi.link.trans hx) hc hy

namespace Meet

variable {b h k : Nat} {s : Store}

theorem feed (hi : Meet b h k s) (target v : Value) : Meet b h k (s.feed target v).store := by
  have hs := steps_feed hi.sound.tallyless target v
  obtain ⟨d, hd, hv⟩ := hi.base
  exact ⟨hi.toSiblings.feed target v, ⟨_, hs.account? hd, (Account.isView_history ..).trans hv⟩,
    hi.left.congr hs.link?, hi.right.congr hs.link?⟩

theorem adapt (hi : Meet b h k s) {x : Nat}
    (hx : x ∈ s.side Converter.IsUntapped h ∪ s.side Converter.IsUntapped k) {c : Converter} (hc : c.IsUntapped) :
    Meet b h k (s.adapt (.handle x) c) := by
  obtain ⟨d, hd, hv⟩ := hi.base
  exact ⟨hi.toSiblings.adapt hx hc, ⟨d, account?_adapt _ _ hd, hv⟩, hi.left.adapt _ _, hi.right.adapt _ _⟩

theorem deliveries_feed (hi : Meet b h k s) {x : Nat}
    (hx : x ∈ s.side Converter.IsUntapped h ∪ s.side Converter.IsUntapped k) (v : Value) :
    ∃ path, Chain s b (.handle x) path ∧ deliveries b (s.traced false (.handle x) v).events = s.converted path v := by
  have hb : s.OnSide Converter.IsUntapped b x := hx.elim (fun hx => hx.trans hi.left) fun hx => hx.trans hi.right
  obtain ⟨path, hc, hP⟩ := hb.chain
  obtain ⟨d, hd, hv⟩ := hi.base
  have huntapped : ∀ c ∈ path.map Prod.snd, c.taps = ∅ := by
    intro c hc
    obtain ⟨w, hw, rfl⟩ := List.mem_map.mp hc
    exact hP w hw
  refine ⟨path, hc, ?_⟩
  rw [(chain_spec hi.sound hd hv hc v).2 false, pass_of_untapped huntapped, Passage.delivered, converted]
  cases Converter.applyAll (path.map Prod.snd) s.view v <;> rfl

theorem receives_feed (hi : Meet b h k s) {x : Nat}
    (hx : x ∈ s.side Converter.IsUntapped h ∪ s.side Converter.IsUntapped k) {v : Value} {ms : List Move}
    (hms : Receives b (s.feed (.handle x) v).store ms (deliveries b (eventsOf ms (s.feed (.handle x) v).store))) :
    Receives b s (.feed (.handle x) v :: ms) (deliveries b (eventsOf (.feed (.handle x) v :: ms) s)) := by
  obtain ⟨path, hc, hd⟩ := hi.deliveries_feed hx v
  simp only [eventsOf, deliveries_append, perform, traced_outcome]
  rw [hd]
  exact .call hc hms

theorem receives {Q : Value → Prop} {ms as cs : List Move} (hi : Meet b h k s)
    (hms : Interleaves Converter.IsUntapped Q h k s ms as cs) : Receives b s ms (deliveries b (eventsOf ms s)) := by
  induction hms with
  | nil s => exact .nil s
  | adapt hx hc _ ih => exact .adapt (ih (hi.adapt hx hc))
  | left hx _ _ ih => exact hi.receives_feed (.inl hx) (ih (hi.feed _ _))
  | right hx _ _ ih => exact hi.receives_feed (.inr hx) (ih (hi.feed _ _))

end Meet

/-! ## Copies -/

theorem within_forEach {F : Set Place} {f : Value → Store → Outcome}
    (hf : ∀ t s, s.Tallyless → Within F s (f t s).store) :
    ∀ (ts : List Value) (s : Store), s.Tallyless → Within F s (forEach f ts s).store
  | [], s, _ => .refl F s
  | t :: ts, s, hn =>
    have h := hf t s hn
    within_andThen h fun _ => within_forEach hf ts _ (h.tallyless hn)

theorem within_feedAll (targets : List Value) :
    ∀ (vs : List Value) (s : Store), s.Tallyless → Within Set.univ s (feedAll targets vs s).outcome.store
  | [], s, _ => .refl _ s
  | v :: vs, s, hn => by
    have hw : Within Set.univ s (forEach (fun t u => u.feed t (v.amendBy u.changes)) targets s).store :=
      within_forEach (fun t u hu => within_feed hu u.closed_univ fun _ _ => trivial) targets s hn
    simp only [feedAll]
    split
    · exact hw.trans (within_feedAll targets vs _ (hw.tallyless hn))
    · exact hw

theorem marks_perform {s : Store} (hn : s.Tallyless) (m : Move) : s.marks ≤ (s.perform m).outcome.store.marks := by
  cases m with
  | create c => cases c <;> exact Nat.le_refl _
  | adapt adoptee c => exact Nat.le_refl _
  | copy h =>
    simp only [perform, Store.copy]
    cases s.account? h <;> exact Nat.le_refl _
  | feed target v =>
    simp only [perform, traced_outcome]
    exact (within_feed hn s.closed_univ fun _ _ => trivial).marks
  | accumulate targets values =>
    rw [perform_accumulate, accumulate]
    split
    · exact Nat.le_refl _
    · exact (within_feedAll targets values s hn).marks
  | list x passive => exact Nat.le_refl _

theorem Built.marks_pos {s : Store} (hs : s.Built) : 0 < s.marks := by
  induction hs with
  | empty => exact Nat.succ_pos _
  | perform hs _ ih => exact Nat.lt_of_lt_of_le ih (marks_perform hs.sound.tallyless _)

theorem perform_copy {s t : Store} {h : Nat} (ht : s.copy h = .ok t) : (s.perform (.copy h)).outcome.store = t := by
  simp only [perform, ht]
  rfl

section
variable {s t : Store} {h : Nat} {a : Account} (ha : s.account? h = some a) (ht : s.copy h = .ok t) (n : Nat)
include ha ht

theorem account?_copy : (t.reserve n).account? h = some a ∧ (t.reserve n).account? s.next = some a := by
  simp only [Store.copy, ha, Except.ok.injEq] at ht
  subst ht
  have hobject (x : Nat) : ((s.push (.account a)).reserve n).object? x =
      if x = s.objects.length then some (.account a) else s.object? x := object?_append rfl x
  rw [account?_eq_some, account?_eq_some, hobject, hobject, if_neg (Nat.ne_of_lt (lt_of_account? ha))]
  exact ⟨account?_eq_some.mp ha, if_pos rfl⟩

theorem siblings_copy (hs : s.Sound) : Siblings h s.next (t.reserve n) := by
  obtain ⟨hh, hk⟩ := account?_copy ha ht n
  have hsound : t.Sound :=
    perform_copy ht ▸ ⟨tallyless_perform hs.tallyless (.copy h), layered_perform hs (m := .copy h) trivial⟩
  refine ⟨(Step.reserve t n).steps.sound hsound, lt_of_account? ha, ⟨⟨a, hh⟩, a, hk⟩, ?_⟩
  simp only [link?, hh, hk]

theorem twins_copy (hs : s.Sound) (hv : a.isView = false) (hr : a.tape? = none) {U : Set Nat}
    (hU : (t.reserve n).Steady U ((t.reserve n).side (Converter.IsPure (t.reserve n).marks U) h ∪
      (t.reserve n).side (Converter.IsPure (t.reserve n).marks U) s.next)) :
    Twins (t.reserve n).marks U h s.next (t.reserve n) := by
  obtain ⟨hh, hk⟩ := account?_copy ha ht n
  have hi := siblings_copy ha ht n hs
  refine ⟨hi.sound, rfl, Nat.ne_of_lt hi.lt, hi.lt_next, ⟨link?_of_base hh hv, link?_of_base hk hv⟩, ?_, hU⟩
  simp only [recorder?, hh, hk, Option.bind_some, hr, and_self]

end

def CountsOwn (P : Converter → Prop) (h k : Nat) (s : Store) : Prop :=
  ∀ x ∈ s.side P h, ∀ v,
    (s.feed (.handle x) v).store.samplesOf h =
        s.samplesOf h + (if (s.feed (.handle x) v).fault = none then 1 else 0) ∧
      (s.feed (.handle x) v).store.samplesOf k = s.samplesOf k

/-- A copy evolves on its own. Whatever calls are made on an account that is neither a view nor a recorder, on its
copy and on their views, what becomes of either side is what would have become of it without the calls on
the other one. That supposes that nothing but the values decides what the converters make of them, and
that the objects which these values hold look the same whatever becomes of the two sides. A view and
its copy count each their own calls that come back, while the account to which both lead is given what the
converters make of the values on both sides, in the order of the calls. -/
theorem copy_evolves_apart {s t : Store} (hs : s.Built) {h : Nat} {a : Account} (ha : s.account? h = some a)
    (ht : s.copy h = .ok t) (n : Nat) :
    let k := s.next
    let start := t.reserve n
    let m := start.marks
    start.account? k = some a ∧
    (∀ U, a.isView = false → a.tape? = none →
      start.Steady U (start.side (Converter.IsPure m U) h ∪ start.side (Converter.IsPure m U) k) →
      (∀ x ∈ start.side (Converter.IsPure m U) h ∪ start.side (Converter.IsPure m U) k,
        ∀ b, start.account? x = some b → b.Known m U) →
      ∀ ms as cs, Interleaves (Converter.IsPure m U) (Value.Known m U) h k start ms as cs →
        Alike m U ((start.after ms).side (Converter.IsPure m U) h) (start.after ms) (start.after as) ∧
          Alike m U ((start.after ms).side (Converter.IsPure m U) k) (start.after ms) (start.after cs)) ∧
    ∀ Q ms as cs, Interleaves Converter.IsUntapped Q h k start ms as cs →
      CountsOwn Converter.IsUntapped h k (start.after ms) ∧ CountsOwn Converter.IsUntapped k h (start.after ms) ∧
      (AllReturn ms start →
        (start.after ms).samplesOf h = start.samplesOf h + as.countP isCall ∧
          (start.after ms).samplesOf k = start.samplesOf k + cs.countP isCall) ∧
      ∀ b d, a.isView = true → start.account? b = some d → d.isView = false →
        h ∈ start.side Converter.IsUntapped b →
        ∃ ds e, Receives b start ms ds ∧ (start.after ms).account? b = some e ∧
          e.standing = (d.fed ds).standing := by
  intro k start m
  have hsound := hs.sound
  have hi : Siblings h k start := siblings_copy ha ht n hsound
  obtain ⟨hh, hk⟩ := account?_copy ha ht n
  have hm : 0 < m := by
    have ht' : t.Built := perform_copy ht ▸ hs.perform (m := .copy h) trivial
    exact Nat.lt_of_lt_of_le ht'.marks_pos (Nat.le_add_right _ _)
  refine ⟨hk, ?_, ?_⟩
  · intro U hv hr hU hknown ms as cs hms
    have htw : Twins m U h k start := twins_copy ha ht n hsound hv hr hU
    exact ⟨htw.alike hm hh (fun x hx => hknown x (.inl hx)) hms,
      htw.symm.alike hm hk (fun x hx => hknown x (.inr hx)) hms.symm⟩
  · intro Q ms as cs hms
    have hi' := hi.after (fun _ hc => hc) hms
    refine ⟨fun x hx v => (hi'.counts (fun _ hc => hc) x v).1 hx, fun x hx v => (hi'.counts (fun _ hc => hc) x v).2 hx,
      hi.counts_of_return (fun _ hc => hc) hms, ?_⟩
    intro b d hv hb hd hside
    refine ⟨_, _, (hi.meet hh hv hb hd hside).receives hms,
      account?_eq_some.mpr (object?_after hi.sound.tallyless ms (account?_eq_some.mp hb)), ?_⟩
    exact Account.standing_history b _ hd rfl

def leastWithView (c : Converter) : Store := empty.after [.create (.statistic .min false), .adapt (.handle 0) c]

theorem built_leastWithView {c : Converter} (hc : c.taps = ∅) : (leastWithView c).Built :=
  .perform (.perform .empty trivial)
    ⟨fun _ he => by cases he; exact Nat.zero_lt_one, fun _ h => by rw [hc] at h; cases h⟩

def reader : Converter := .ofConversion .none .float

/-- Calls on the copy of the least sample, on the view and on a view of the copy. One of them fails. -/
def mixedCalls : List Move :=
  [.feed (.handle 2) (.ofInt 5), .feed (.handle 1) (.text "1" 2), .adapt (.handle 2) (.ofConversion .none .float),
    .feed (.handle 3) (.text "one" 3), .feed (.handle 3) (.text "1" 2)]

def sharedCalls : List Move := [.feed (.handle 2) (.text "1" 2), .feed (.handle 1) (.text "2" 3)]

theorem copy_evolves_apart_of_leastWithView :
    (∃ t, (leastWithView reader).copy 0 = .ok t ∧
      Alike 4 ∅ {0} ((t.reserve 2).after mixedCalls) ((t.reserve 2).after ((mixedCalls.drop 1).take 2)) ∧
      Alike 4 ∅ {2} ((t.reserve 2).after mixedCalls) ((t.reserve 2).after (mixedCalls.eraseIdx 1))) ∧
    ∃ t, (leastWithView reader).copy 1 = .ok t ∧ ((t.reserve 2).after sharedCalls).samplesOf 1 = 1 ∧
      ((t.reserve 2).after sharedCalls).samplesOf 2 = 1 ∧
      ∃ ds e, Receives 0 (t.reserve 2) sharedCalls ds ∧ ((t.reserve 2).after sharedCalls).account? 0 = some e ∧
        e.standing = ((Account.opened (.statistic .min false) 0).fed ds).standing := by
  have hpure : Converter.IsPure 4 ∅ (.ofConversion .none .float) :=
    ⟨Converter.taps_ofConversion _ _, Converter.isFunctional_ofConversion _ _ _ _⟩
  have one : Value.Known 4 ∅ (.text "1" 2) := .text _ ⟨rfl, by decide⟩
  have five : Value.Known 4 ∅ (.ofInt 5) := .number _ ⟨rfl, by decide⟩
  have noNumber : Value.Known 4 ∅ (.text "one" 3) := .text _ ⟨rfl, by decide⟩
  constructor
  · obtain ⟨t, ht⟩ : ∃ t, (leastWithView reader).copy 0 = .ok t := ⟨_, rfl⟩
    refine ⟨t, ht, ?_⟩
    obtain ⟨-, halike, -⟩ := copy_evolves_apart (built_leastWithView (Converter.taps_ofConversion _ _)) rfl ht 2
    cases ht
    have hms : Interleaves (Converter.IsPure 4 ∅) (Value.Known 4 ∅) 0 2
        (((leastWithView reader).push (.account (.opened (.statistic .min false) 0))).reserve 2) mixedCalls
        ((mixedCalls.drop 1).take 2) (mixedCalls.eraseIdx 1) :=
      .right .self five (.left (.view rfl hpure .self) one (.adapt (.inr .self) hpure
        (.right (.view rfl hpure .self) noNumber (.right (.view rfl hpure .self) one (.nil _)))))
    have hsteady (X : Set Nat) :
        (((leastWithView reader).push (.account (.opened (.statistic .min false) 0))).reserve 2).Steady ∅ X :=
      fun _ _ => ⟨fun _ h => h.elim, fun _ h => h.elim, fun _ h => h.elim⟩
    obtain ⟨⟨R, hR, hleft⟩, S, hS, hright⟩ := halike ∅ rfl rfl (hsteady _) (fun x _ b hb => by
      rcases x with _ | _ | _ | x <;> cases hb
      · exact ⟨rfl, rfl, .min .none, ⟨rfl, by decide⟩, rfl⟩
      · exact ⟨rfl, rfl, .view _ _, ⟨rfl, by decide⟩, rfl⟩
      · exact ⟨rfl, rfl, .min .none, ⟨rfl, by decide⟩, rfl⟩) _ _ _ hms
    refine ⟨⟨R, hR, ?_⟩, S, hS, ?_⟩
    · rintro _ rfl
      exact hleft 0 .self
    · rintro _ rfl
      exact hright 2 .self
  · obtain ⟨t, ht⟩ : ∃ t, (leastWithView reader).copy 1 = .ok t := ⟨_, rfl⟩
    refine ⟨t, ht, ?_⟩
    obtain ⟨-, -, hviews⟩ := copy_evolves_apart (built_leastWithView (Converter.taps_ofConversion _ _)) rfl ht 2
    cases ht
    obtain ⟨-, -, hcounts, hreceives⟩ := hviews (fun _ => True) sharedCalls [sharedCalls[1]] [sharedCalls[0]]
      (.right .self trivial (.left .self trivial (.nil _)))
    obtain ⟨hleft, hright⟩ := hcounts ⟨by decide +kernel, by decide +kernel, trivial⟩
    have hbase := hreceives 0 (.opened (.statistic .min false) 0) rfl rfl rfl (.view rfl (Converter.taps_ofConversion _ _) .self)
    exact ⟨hleft.trans (by decide +kernel), hright.trans (by decide +kernel), hbase⟩

/-! ## What shows how the copy stands -/

/-- Whether what a store shows after calls on an account, its copy and their views depends on those on the side of
the copy. -/
def DependsOnCopy {α : Type} (s : Store) (h : Nat) (ms as cs : List Move) (shows : Store → α) : Prop :=
  ∃ t, s.copy h = .ok t ∧ Interleaves Converter.IsUntapped (fun _ => True) h s.next t ms as cs ∧
    shows (t.after ms) ≠ shows (t.after as)

/-- An account depends on the calls on its copy if the copy is a sample of which a view makes a text, or if a
converter knows the copy. The count of a view depends on those on its copy, since what they have left
in the adoptee decides which calls come back. -/
theorem copy_is_noticed :
    (leastWithView texts).DependsOnCopy 0
        [.feed (.handle 2) (.ofInt 5), .feed (.handle 1) (.handle 2)] [.feed (.handle 1) (.handle 2)]
        [.feed (.handle 2) (.ofInt 5)] (fun s => s.leastText? 0) ∧
      (leastWithView (textOf 2)).DependsOnCopy 0
        [.feed (.handle 2) (.ofInt 5), .feed (.handle 1) (.ofInt 1)] [.feed (.handle 1) (.ofInt 1)]
        [.feed (.handle 2) (.ofInt 5)] (fun s => s.leastText? 0) ∧
      (leastWithView (.ofConversion .none .id)).DependsOnCopy 1
        [.feed (.handle 2) (.ofText "x"), .feed (.handle 1) (.ofInt 1)] [.feed (.handle 1) (.ofInt 1)]
        [.feed (.handle 2) (.ofText "x")] (fun s => s.samplesOf 1) := by
  refine ⟨⟨_, rfl, .right .self trivial (.left (.view rfl (Converter.taps_ofConversion _ _) .self) trivial (.nil _)), ?_⟩,
    ⟨_, rfl, .right .self trivial (.left (.view rfl (Converter.taps_ofFunction ..) .self) trivial (.nil _)), ?_⟩,
    ⟨_, rfl, .right .self trivial (.left .self trivial (.nil _)), ?_⟩⟩ <;> decide +kernel

end StreamStat.Store
