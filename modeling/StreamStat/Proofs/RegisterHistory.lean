import StreamStat.Proofs.RegisterCalls

/-!
# The register and its history

What the calls of the register have given, newest first, decides what it holds: the
factories that have been registered since the last reset, and the configured ledger if
one of them was registered by configuring. Objects of the register are the same if no
reset came between them.
-/

namespace StreamStat

namespace Register

section
variable {φ : Type}

/-! ## Histories -/

structure Entry (φ : Type) where
  call : Call φ
  reply : Except Fault (Reply φ)

namespace Entry

def resets : Entry φ → Bool
  | ⟨.reset, _⟩ => true
  | _ => false

def adds? : Entry φ → Option (String × φ)
  | ⟨.method _ (.register name f), .ok _⟩ => some (name, f)
  | _ => none

def configures : Entry φ → Bool
  | ⟨.configure, .ok _⟩ => true
  | _ => false

end Entry

def sinceReset (past : List (Entry φ)) : List (Entry φ) := past.takeWhile fun e => !e.resets

def byHand (past : List (Entry φ)) : List (String × φ) := (sinceReset past).filterMap Entry.adds?

def hasConfigured (past : List (Entry φ)) : Bool := (sinceReset past).any Entry.configures

/-- The registrations since the last reset that succeeded, by hand or by configuring. -/
def registrations (uniform : φ) (past : List (Entry φ)) : List (String × φ) :=
  byHand past ++ if hasConfigured past then [(builtin, uniform)] else []

section
variable {e : Entry φ} (h : e.resets = false) (past : List (Entry φ))
include h

theorem byHand_cons : byHand (e :: past) = e.adds?.toList ++ byHand past := by
  cases he : e.adds? <;> simp [byHand, sinceReset, h, he]

theorem hasConfigured_cons : hasConfigured (e :: past) = (e.configures || hasConfigured past) := by
  simp [hasConfigured, sinceReset, h]

end

theorem registrations_of_resets (uniform : φ) {e : Entry φ} (h : e.resets = true) (past : List (Entry φ)) :
    registrations uniform (e :: past) = [] ∧ hasConfigured (e :: past) = false := by
  simp [registrations, byHand, hasConfigured, sinceReset, h]

/-! ## The ledger -/

structure Follows (uniform : φ) (r : Register φ) (past : List (Entry φ)) : Prop where
  opened : ∀ l, r.current = some l → l.serial < r.opened
  factories : r.ledger.factories.Perm (registrations uniform past)
  distinct : (r.ledger.factories.map Prod.fst).Nodup
  cache : r.configured = if hasConfigured past then some r.ledger.serial else none
  current : hasConfigured past = true → r.current = some r.ledger

namespace Follows

variable {uniform : φ} {r : Register φ} {past : List (Entry φ)} {e : Entry φ}

theorem empty : Follows uniform .empty [] where
  opened _ h := by cases h
  factories := .refl _
  distinct := .nil
  cache := rfl
  current h := by cases h

theorem serial_lt (h : Follows uniform r past) : r.ledger.serial < r.ensure.opened := by
  unfold ensure ledger
  cases hc : r.current with
  | none => exact Nat.lt_succ_self _
  | some l => exact h.opened l hc

theorem ensure (h : Follows uniform r past) : Follows uniform r.ensure past where
  opened l hl := by
    rw [current_ensure] at hl
    cases hl
    exact h.serial_lt
  factories := by rw [ledger_ensure]; exact h.factories
  distinct := by rw [ledger_ensure]; exact h.distinct
  cache := by rw [configured_ensure, ledger_ensure]; exact h.cache
  current _ := by rw [current_ensure, ledger_ensure]

/-- A call that neither resets nor registers anything. -/
theorem idle (h : Follows uniform r past) (hr : e.resets = false) (ha : e.adds? = none)
    (hk : e.configures = true → hasConfigured past = true) : Follows uniform r (e :: past) := by
  have hb : byHand (e :: past) = byHand past := by rw [byHand_cons hr, ha]; rfl
  have hc : hasConfigured (e :: past) = hasConfigured past := by
    rw [hasConfigured_cons hr]
    cases hx : e.configures with
    | false => rfl
    | true => rw [hk hx]; rfl
  have hg : registrations uniform (e :: past) = registrations uniform past := by
    unfold registrations
    rw [hb, hc]
  exact ⟨h.opened, hg ▸ h.factories, h.distinct, hc ▸ h.cache, hc ▸ h.current⟩

theorem hasConfigured_iff (h : Follows uniform r past) : hasConfigured past = r.configured.isSome := by
  rw [h.cache]
  cases hasConfigured past <;> rfl

theorem registrations_eq (h : Follows uniform r past) (hk : r.configured = none) :
    registrations uniform past = byHand past := by
  have hc : hasConfigured past = false := by rw [h.hasConfigured_iff, hk]; rfl
  simp [registrations, hc]

theorem remembered (h : Follows uniform r past) (n : Nat) (hn : r.configured = some n) : n = r.ledger.serial := by
  rw [h.cache] at hn
  split at hn
  · exact (Option.some.inj hn).symm
  · cases hn

theorem notMem_of_find? {name : String} (hn : r.find? name = none) :
    name ∉ r.ledger.factories.map Prod.fst := by
  intro hm
  obtain ⟨p, hp, rfl⟩ := List.mem_map.mp hm
  simpa using List.lookup_eq_none_iff.mp hn p hp

theorem distinct_adding (h : Follows uniform r past) {name : String} (hn : r.find? name = none) (f : φ) :
    ((r.adding name f).ledger.factories.map Prod.fst).Nodup := by
  rw [ledger_adding, List.map_append, List.map_cons, List.map_nil]
  refine List.nodup_append.mpr ⟨h.distinct, List.pairwise_singleton _ name, fun a ha b hb => ?_⟩
  obtain rfl := List.mem_singleton.mp hb
  exact fun he => notMem_of_find? hn (he ▸ ha)

theorem adding (h : Follows uniform r past) {on : Option Value} {name : String} (hn : r.find? name = none)
    (f : φ) :
    Follows uniform (r.adding name f) (⟨.method on (.register name f), .ok .done⟩ :: past) where
  opened l hl := by
    cases hl
    exact h.serial_lt
  factories := by
    rw [registrations, byHand_cons rfl, hasConfigured_cons rfl]
    exact (List.perm_append_singleton _ _).trans (h.factories.cons _)
  distinct := h.distinct_adding hn f
  cache := by
    rw [configured_adding, hasConfigured_cons rfl]
    exact h.cache
  current _ := rfl

theorem configuring (h : Follows uniform r past) (hk : r.configured = none) (hn : r.find? builtin = none) (v : Value) :
    Follows uniform (r.configuring uniform) (⟨.configure, .ok (.object v)⟩ :: past) where
  opened l hl := by
    cases hl
    exact h.serial_lt
  factories := by
    have hp := h.factories
    rw [h.registrations_eq hk] at hp
    rw [registrations, byHand_cons rfl, hasConfigured_cons rfl]
    exact hp.append_right [(builtin, uniform)]
  distinct := h.distinct_adding hn uniform
  cache := by
    rw [hasConfigured_cons rfl]
    rfl
  current _ := rfl

theorem reset (r : Register φ) (past : List (Entry φ)) : Follows uniform r.reset (⟨.reset, .ok .done⟩ :: past) where
  opened _ hl := by cases hl
  factories := by rw [(registrations_of_resets uniform rfl past).1]; exact .refl _
  distinct := .nil
  cache := by rw [(registrations_of_resets uniform rfl past).2]; rfl
  current hk := by rw [(registrations_of_resets uniform rfl past).2] at hk; cases hk

theorem turn (h : Follows uniform r past) {r' : Register φ} {c : Call φ} {reply : Except Fault (Reply φ)}
    (ht : Turn uniform r c reply r') : Follows uniform r' (⟨c, reply⟩ :: past) := by
  cases ht with
  | object v => exact h.ensure.idle rfl rfl nofun
  | reset => exact .reset r past
  | remembered v hk => exact h.idle rfl rfl fun _ => by rw [h.hasConfigured_iff, hk]; rfl
  | configured v hk hn => exact h.configuring hk hn v
  | occupied => exact h.ensure.idle rfl rfl nofun
  | added f hn => exact h.adding hn f
  | duplicate | found | unknown | names => exact h.ensure.idle rfl rfl nofun

theorem find?_eq_some (h : Follows uniform r past) {name : String} {f : φ} :
    r.find? name = some f ↔ (name, f) ∈ registrations uniform past := by
  rw [← h.factories.mem_iff, find?, List.lookup_eq_some_iff]
  constructor
  · rintro ⟨before, after, he, -⟩
    rw [he]
    exact List.mem_append_right _ (List.mem_cons_self ..)
  · intro hm
    obtain ⟨before, after, he⟩ := List.append_of_mem hm
    have hd := h.distinct
    rw [he, List.map_append, List.map_cons] at hd
    refine ⟨before, after, he, fun p hp => bne_iff_ne.mpr fun hk => ?_⟩
    have hne := (List.nodup_append.mp hd).2.2 p.1 (List.mem_map_of_mem hp)
    exact hne name (List.mem_cons_self ..) hk.symm

theorem find?_eq_none (h : Follows uniform r past) {name : String} :
    r.find? name = none ↔ name ∉ (registrations uniform past).map Prod.fst := by
  rw [← (h.factories.map Prod.fst).mem_iff]
  refine ⟨notMem_of_find?, fun hn => ?_⟩
  rw [find?, List.lookup_eq_none_iff]
  intro p hp
  simpa using fun he => hn (List.mem_map.mpr ⟨p, hp, he.symm⟩)

theorem once (h : Follows uniform r past) : ((registrations uniform past).map Prod.fst).Nodup :=
  (h.factories.map Prod.fst).nodup_iff.mp h.distinct

/-- The ledger that is remembered is the current one, with the built-in factory in it. -/
theorem cached (h : Follows uniform r past) (n : Nat) (hn : r.configured = some n) :
    ∃ l, r.current = some l ∧ l.serial = n ∧ l.factories.lookup builtin = some uniform := by
  have hc : hasConfigured past = true := by rw [h.hasConfigured_iff, hn]; rfl
  refine ⟨r.ledger, h.current hc, (h.remembered n hn).symm, h.find?_eq_some.mpr ?_⟩
  simp [registrations, hc]

theorem mem_names (h : Follows uniform r past) (name : String) :
    name ∈ r.ledger.names ↔ name ∈ (registrations uniform past).map Prod.fst := by
  rw [Ledger.names, List.mem_mergeSort, (h.factories.map Prod.fst).mem_iff]

theorem names_sorted (h : Follows uniform r past) : r.ledger.names.Pairwise (· < ·) := by
  have le (a b : String) : (!decide (b < a)) = true ↔ a ≤ b := by
    rw [Bool.not_eq_true', decide_eq_false_iff_not, String.not_lt]
  have hs : r.ledger.names.Pairwise fun a b => (!decide (b < a)) = true := by
    refine List.pairwise_mergeSort (fun a b c hab hbc => ?_) (fun a b => ?_) _
    · exact (le a c).mpr (String.le_trans ((le a b).mp hab) ((le b c).mp hbc))
    · rw [Bool.or_eq_true, le, le]
      exact String.le_total a b
  have hd : r.ledger.names.Nodup := (List.mergeSort_perm _ _).nodup_iff.mpr h.distinct
  exact hs.imp₂ (fun a b hle hne => Std.lt_of_le_of_ne ((le a b).mp hle) hne) hd

theorem turn_object (h : Follows uniform r past) {r' : Register φ} {c : Call φ} {v : Value}
    (ht : Turn uniform r c (.ok (.object v)) r') : r'.current = some r'.ledger := by
  cases ht with
  | object => rw [current_ensure, ledger_ensure]
  | remembered v hk => exact h.current (by rw [h.hasConfigured_iff, hk]; rfl)
  | configured => rfl

end Follows

end

/-! ## Reached sessions -/

def Granted (past : List (Entry Factory)) (on : Option Value) : Prop :=
  ∀ v, on = some v → ∃ e ∈ past, e.reply = .ok (.object v)

theorem granted_of_mem {past : List (Entry Factory)} {e : Entry Factory} (he : e ∈ past) {v : Value}
    (hv : e.reply = .ok (.object v)) : Granted past (some v) := by
  rintro w ⟨⟩
  exact ⟨e, he, hv⟩

inductive Reached : List (Entry Factory) → Session → Prop where
  | start : Reached [] .empty
  | call {past : List (Entry Factory)} {s : Session} (h : Reached past s) (c : Call Factory) (hc : Granted past c.on) :
    Reached (⟨c, (s.ask c).1⟩ :: past) (s.ask c).2

end Register

namespace Session

open Register

/-! ## Objects -/

/-- The ledgers of a session, and which of them the objects that calls have given stand
for. An object is that of the current ledger if there has been no reset since. -/
structure Remembers (s : Session) (past : List (Entry Factory)) (serials : List Nat) : Prop where
  lists : s.Lists serials
  opened : ∀ n ∈ serials, n < s.register.opened
  objects : ∀ newer e older v, past = newer ++ e :: older → e.reply = .ok (.object v) →
    ∃ n ∈ serials, v = .handle (serials.idxOf n) ∧
      (n = s.register.ledger.serial ↔ ∀ d ∈ newer, d.call ≠ .reset)

namespace Remembers

variable {s : Session} {past : List (Entry Factory)} {serials : List Nat}

theorem empty : Session.empty.Remembers [] [] where
  lists := rfl
  opened := nofun
  objects newer e older v h := by simp at h

theorem objectOf? (h : s.Remembers past serials) {e : Entry Factory} (he : e ∈ past) {v : Value}
    (hv : e.reply = .ok (.object v)) : ∃ n, s.store.objectOf? v = some (.register n []) := by
  obtain ⟨newer, older, hp⟩ := List.append_of_mem he
  obtain ⟨n, hn, rfl, -⟩ := h.objects newer e older v hp hv
  exact ⟨n, h.lists.objectOf? hn⟩

theorem grants (h : s.Remembers past serials) {on : Option Value} (hg : Granted past on) :
    s.Grants on := by
  intro v hv
  obtain ⟨e, he, hr⟩ := hg v hv
  obtain ⟨n, hn⟩ := h.objectOf? he hr
  exact ⟨n, [], hn⟩

theorem ask (h : s.Remembers past serials) (hf : Follows .uniform s.register past) {c : Call Factory}
    {t : Session} {reply : Except Fault (Reply Factory)} (ht : Turn .uniform s.register c reply t.register)
    (hl : t.Tracks serials s.register.ledger.serial reply) :
    ∃ later, t.Remembers (⟨c, reply⟩ :: past) (serials ++ later) := by
  obtain ⟨later, hl, hm, hv⟩ := hl.lists
  refine ⟨later, hl, fun n hn => ?_, fun newer e older v hp hr => ?_⟩
  · rcases List.mem_append.mp hn with hn | hn
    · exact Nat.lt_of_lt_of_le (h.opened n hn) ht.opened_le
    -- a new object comes with an open ledger
    · obtain ⟨rfl, v, rfl⟩ := hm n hn
      have hc := ht.call_ne_reset
      rw [← ht.serial hc]
      exact (hf.turn ht).opened _ (hf.turn_object ht)
  · cases newer with
    | nil =>
      cases hp
      obtain rfl : reply = _ := hr
      have hc := ht.call_ne_reset
      obtain ⟨hn, hv⟩ := hv v rfl
      exact ⟨_, hn, hv, by simp [ht.serial hc]⟩
    | cons d newer =>
      cases hp
      obtain ⟨n, hn, rfl, hi⟩ := h.objects newer e older v rfl hr
      refine ⟨n, List.mem_append_left _ hn, by rw [List.idxOf_append_of_mem hn], ?_⟩
      -- the next ledger has a serial number that no object has had
      by_cases hc : c = .reset
      · subst hc
        rw [ht.serial_reset]
        simp [Nat.ne_of_lt (h.opened n hn)]
      · rw [ht.serial hc, hi]
        simp [hc]

theorem same {e d : Entry Factory} {between older : List (Entry Factory)} {v w : Value}
    (h : s.Remembers (e :: (between ++ d :: older)) serials) (hv : e.reply = .ok (.object v))
    (he : e.call ≠ .reset) (hw : d.reply = .ok (.object w)) :
    v.same w = true ↔ ∀ b ∈ between, b.call ≠ .reset := by
  obtain ⟨m, hm, rfl, hm'⟩ := h.objects [] e _ v rfl hv
  obtain ⟨n, -, rfl, hn⟩ := h.objects (e :: between) d older w rfl hw
  obtain rfl : m = s.register.ledger.serial := hm'.mpr (List.forall_mem_nil _)
  have hs : ∀ i j : Nat, (Value.handle i).same (.handle j) = true ↔ i = j := by simp [Value.same]
  rw [hs, List.idxOf_inj hm, eq_comm, hn]
  simp [he]

theorem picture (h : s.Remembers past serials) {e : Entry Factory} (he : e ∈ past) {v : Value}
    (hv : e.reply = .ok (.object v)) :
    s.picture v = .tagged "DistributionRegister" (s.register.ledger.names.map .text) := by
  obtain ⟨newer, older, hp⟩ := List.append_of_mem he
  obtain ⟨n, hn, rfl, -⟩ := h.objects newer e older v hp hv
  have ho : s.store.object? (serials.idxOf n) = some (.register n []) := h.lists.objectOf? hn
  simp only [Session.picture, Value.picture, pictureWithin, ho]
  rfl

end Remembers

end Session

namespace Register

/-! ## What the calls decide -/

/-- The calls made so far leave a register that follows them, and objects that stand for
its ledgers. -/
theorem Reached.invariant {past : List (Entry Factory)} {s : Session} (h : Reached past s) :
    Follows .uniform s.register past ∧ ∃ serials, s.Remembers past serials := by
  induction h with
  | start => exact ⟨.empty, [], .empty⟩
  | call h c hc ih =>
    obtain ⟨hf, serials, hs⟩ := ih
    obtain ⟨ht, hl⟩ := Session.ask_spec hs.lists (hs.grants hc) hf.remembered
    obtain ⟨later, hr⟩ := hs.ask hf ht hl
    exact ⟨hf.turn ht, _, hr⟩

theorem Reached.call_ne_reset {e : Entry Factory} {past : List (Entry Factory)} {s : Session} (h : Reached (e :: past) s)
    {v : Value} (hv : e.reply = .ok (.object v)) : e.call ≠ .reset := by
  cases h with
  | call h c hc =>
    rintro rfl
    cases hv

theorem Reached.of_append {newer past : List (Entry Factory)} {s : Session} (h : Reached (newer ++ past) s) :
    ∃ t, Reached past t := by
  induction newer generalizing s with
  | nil => exact ⟨s, h⟩
  | cons e newer ih =>
    cases h with
    | call h c hc => exact ih h

end Register

namespace Session

open Register

structure Accords (s : Session) (past : List (Entry Factory)) : Prop where
  /-- The ledger that is remembered is the current one, with the built-in name in it. -/
  cache : ∀ serial, s.register.configured = some serial → ∃ l,
    s.register.current = some l ∧ l.serial = serial ∧ l.factories.lookup builtin = some .uniform
  /-- Between two resets a name is registered once at most. -/
  once : ((registrations .uniform past).map Prod.fst).Nodup
  get : ∀ on, Granted past on → ∀ name f,
    (s.ask (.method on (.get name))).1 = .ok (.factory f) ↔ (name, f) ∈ registrations .uniform past
  get_refused : ∀ on, Granted past on → ∀ name,
    (s.ask (.method on (.get name))).1 = .error (.register (.unknown name)) ↔
      name ∉ (registrations .uniform past).map Prod.fst
  names : ∀ on, Granted past on → ∃ ns, (s.ask (.method on .names)).1 = .ok (.names ns) ∧
    ns.Pairwise (· < ·) ∧ ∀ name, name ∈ ns ↔ name ∈ (registrations .uniform past).map Prod.fst
  register : ∀ on, Granted past on → ∀ name f, (s.ask (.method on (.register name f))).1 =
    if name ∈ (registrations .uniform past).map Prod.fst then .error (.register (.duplicate name))
    else .ok .done
  configure : (∃ v, (s.ask .configure).1 = .ok (.object v)) ↔
    ¬(s.register.configured = none ∧ builtin ∈ (byHand past).map Prod.fst)
  configure_refused : (s.ask .configure).1 = .error (.register (.duplicate builtin)) ↔
    s.register.configured = none ∧ builtin ∈ (byHand past).map Prod.fst
  /-- A call that fails keeps all factories, and what is remembered. -/
  refused : ∀ c, Granted past c.on → ∀ x, (s.ask c).1 = .error x →
    (s.ask c).2.register.find? = s.register.find? ∧
      (s.ask c).2.register.configured = s.register.configured
  /-- Two objects are the same if no reset came between the calls that gave them. -/
  same : ∀ newer e between d older v w, past = newer ++ e :: (between ++ d :: older) →
    e.reply = .ok (.object v) → d.reply = .ok (.object w) →
      (v.same w = true ↔ ∀ b ∈ between, b.call ≠ .reset)
  /-- An object stands for the current ledger, however old it is. -/
  stale : ∀ e ∈ past, ∀ v, e.reply = .ok (.object v) →
    (∀ m, s.ask (.method (some v) m) = s.ask (.method none m)) ∧
      s.picture v = .tagged "DistributionRegister" (s.register.ledger.names.map .text)

end Session

namespace Register

/-- Whatever calls have been made, on the class or on objects from earlier calls, the
register agrees with them. -/
theorem Reached.accords {past : List (Entry Factory)} {s : Session} (h : Reached past s) : s.Accords past := by
  obtain ⟨hf, serials, hs⟩ := h.invariant
  have turn (c : Call Factory) (hc : Granted past c.on) : Turn .uniform s.register c (s.ask c).1 (s.ask c).2.register :=
    (Session.ask_spec hs.lists (hs.grants hc) hf.remembered).1
  have byHand : s.register.configured = none ∧ s.register.find? builtin ≠ none ↔
      s.register.configured = none ∧ builtin ∈ (byHand past).map Prod.fst := by
    refine and_congr_right fun hk => ?_
    rw [ne_eq, hf.find?_eq_none, hf.registrations_eq hk, not_not]
  constructor
  case cache => exact hf.cached
  case once => exact hf.once
  case get =>
    intro on hc name f
    rw [(turn (.method on (.get name)) hc).get, ← hf.find?_eq_some]
    cases s.register.find? name <;> simp
  case names =>
    intro on hc
    exact ⟨_, (turn (.method on .names) hc).listed, hf.names_sorted, hf.mem_names⟩
  case register =>
    intro on hc name f
    rw [(turn (.method on (.register name f)) hc).register]
    cases hn : s.register.find? name with
    | none => rw [if_neg (hf.find?_eq_none.mp hn)]; rfl
    | some g =>
      have hm : name ∈ (registrations .uniform past).map Prod.fst :=
        List.mem_map.mpr ⟨(name, g), hf.find?_eq_some.mp hn, rfl⟩
      rw [if_pos hm]
      rfl
  case get_refused =>
    intro on hc name
    rw [(turn (.method on (.get name)) hc).get, ← hf.find?_eq_none]
    cases s.register.find? name <;> simp
  case configure_refused => exact (turn .configure nofun).configure_error.trans byHand
  case configure => exact (turn .configure nofun).configure_object.trans (not_congr byHand)
  case refused =>
    intro c hc x hx
    have ht := turn c hc
    rw [hx] at ht
    exact ht.refused
  case same =>
    rintro newer e between d older v w rfl hv hw
    -- handles do not change, so the time of the later call decides
    obtain ⟨t, ht⟩ := h.of_append
    obtain ⟨-, serials, hs⟩ := ht.invariant
    exact hs.same hv (ht.call_ne_reset hv) hw
  case stale =>
    intro e he v hv
    obtain ⟨n, hn⟩ := hs.objectOf? he hv
    exact ⟨Session.ask_method_object hn, hs.picture he hv⟩

/-- The built-in name is given away by hand, so that configuring fails until the reset;
then the object from before works on the new ledger. -/
def staleHistory : List (Entry Factory) := [
  ⟨.method (some (.handle 0)) (.get builtin), .ok (.factory .uniform)⟩,
  ⟨.configure, .ok (.object (.handle 1))⟩,
  ⟨.reset, .ok .done⟩,
  ⟨.configure, .error (.register (.duplicate builtin))⟩,
  ⟨.method (some (.handle 0)) (.register builtin .unit), .ok .done⟩,
  ⟨.object, .ok (.object (.handle 0))⟩]

theorem accords_of_staleHistory : ∃ s, Reached staleHistory s ∧ s.Accords staleHistory := by
  let first : Entry Factory := ⟨.object, .ok (.object (.handle 0))⟩
  have h₁ : Reached (staleHistory.drop 5) _ := .call .start .object nofun
  have h₂ : Reached (staleHistory.drop 4) _ :=
    .call h₁ (.method (some (.handle 0)) (.register builtin .unit))
      (granted_of_mem (e := first) (by simp [staleHistory, first]) rfl)
  have h₃ : Reached (staleHistory.drop 3) _ := .call h₂ .configure nofun
  have h₄ : Reached (staleHistory.drop 2) _ := .call h₃ .reset nofun
  have h₅ : Reached (staleHistory.drop 1) _ := .call h₄ .configure nofun
  have h₆ : Reached staleHistory _ :=
    .call h₅ (.method (some (.handle 0)) (.get builtin))
      (granted_of_mem (e := first) (by simp [staleHistory, first]) rfl)
  exact ⟨_, h₆, h₆.accords⟩

end Register

end StreamStat
