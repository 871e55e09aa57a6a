/-
# Daikon.Store.Agree -- a call with and without the expired entries

A call at a clock is compared with the same call on the store without the entries that are past their
expiry then: the answers, and what a reader sees afterwards (`Agree`). For a call that does one thing at
its key this is a question about that cell. A put may evict, and the bytes of an expired entry may spare
another one (`put_agree_iff`).

`Agree` asks for the same answer and for the same visible entries. It does not ask for the same store: the
byte counter and the recency list may differ, since no read shows them, and so may the entries that are
hidden on both sides.

There are three rules, by how a call uses the entry that it finds. One that creates its key where it is
missing agrees only without an expired entry there (`creating_agree_iff`), one that checks its key first may
also be refused (`validated_agree_iff`), and one whose answer tells an expired entry from none agrees only
where there is none (`telling_agree_iff`). The calls are run through these rules in `Daikon.Store.Absent`.
-/
import Daikon.Store.Expired

namespace Daikon

namespace KvStore

/-- The same answer, and the same to a reader. -/
structure Agree {α : Type} (now : Nat) (r r' : α × KvStore) : Prop where
  answer : r.1 = r'.1
  visible : r.2.visible now = r'.2.visible now

theorem reply_agree_iff {α : Type} {f : α → Reply} (hf : Function.Injective f) {now : Nat}
    {r r' : Except KvStoreError α × KvStore} :
    Agree now (reply f r) (reply f r') ↔ Agree now r r' := by
  have hmap : r.1.map f = r'.1.map f ↔ r.1 = r'.1 := by
    rcases r with ⟨_ | a, t⟩ <;> rcases r' with ⟨_ | b, t'⟩ <;> simp [Except.map, hf.eq_iff]
  exact ⟨fun h => ⟨hmap.mp h.answer, h.visible⟩, fun h => ⟨hmap.mpr h.answer, h.visible⟩⟩

section

variable {s : KvStore} {now : Nat} {key : String}

/-! ## One cell operation on both stores -/

theorem moves_visible_iff {s' p' : KvStore} {op : CellOp} (h : Moves s s' [(key, op)])
    (h' : Moves (s.purge now) p' [(key, op)]) : s'.visible now = p'.visible now ↔
      live now (op.onEntry (s.contents key)) = live now (op.onEntry (live now (s.contents key))) := by
  have hs : s'.contents = Function.update s.contents key (op.onEntry (s.contents key)) := h.contents
  have hp : p'.contents = Function.update (s.purge now).contents key
      (op.onEntry ((s.purge now).contents key)) := h'.contents
  rw [purge_contents] at hp
  unfold visible
  rw [hs, hp]
  constructor
  · intro heq
    have hkey := congrFun heq key
    simpa [visible] using hkey
  · intro heq
    funext k
    by_cases hk : k = key
    · rw [hk, Function.update_self, Function.update_self]
      exact heq
    · rw [Function.update_of_ne hk, Function.update_of_ne hk, visible, live_live]

/-- Where the purge leaves the key alone, the operation does the same. -/
theorem moves_visible_of_same {s' p' : KvStore} {op : CellOp} (h : Moves s s' [(key, op)])
    (h' : Moves (s.purge now) p' [(key, op)])
    (hsame : (s.purge now).store[key]? = s.store[key]?) : s'.visible now = p'.visible now := by
  apply (moves_visible_iff h h').mpr
  have hlive : live now (s.contents key) = s.contents key := (purge_store s now key).symm.trans hsame
  rw [hlive]

/-- An edit that creates the key is seen only where the expired entry was removed. -/
theorem creates_not_visible {s' p' : KvStore} {f : Value → Value} {first : Value}
    (h : Moves s s' [(key, .edit f (some first))])
    (h' : Moves (s.purge now) p' [(key, .edit f (some first))]) {entry : ValueWithTTL}
    (hkey : s.store[key]? = some entry) (hexpired : entry.expired now = true) :
    s'.visible now ≠ p'.visible now := by
  intro heq
  have hcell := (moves_visible_iff h h').mp heq
  have hexpired' : ({ entry with value := f entry.value } : ValueWithTTL).expired now = true := hexpired
  rw [show s.contents key = some entry from hkey, live_expired hexpired] at hcell
  simp only [CellOp.onEntry, Option.map_some] at hcell
  rw [live_expired hexpired', live_some rfl] at hcell
  cases hcell

/-- A call that creates its key if it is accepted (`C`), and is refused on both stores if not. -/
theorem creating_agree_iff {α : Type} {r r' : Except KvStoreError α × KvStore} {op : CellOp} {C : Prop}
    (h : Moves s r.2 [(key, op)]) (h' : Moves (s.purge now) r'.2 [(key, op)])
    (hsame : (s.purge now).store[key]? = s.store[key]? → r.1 = r'.1)
    (hcreates : C → ∃ f first, op = .edit f (some first)) (hrefused : ¬ C → r.1 = r'.1 ∧ op = .nop) :
    Agree now r r' ↔ (C → ¬ s.ExpiredAt now key) := by
  rcases purge_cases s now key with ⟨hlive, hstore⟩ | ⟨entry, hkey, hexpired, hnone⟩
  · exact iff_of_true ⟨hsame hstore, moves_visible_of_same h h' hstore⟩ fun _ => hlive
  · by_cases hC : C
    · obtain ⟨f, first, rfl⟩ := hcreates hC
      refine iff_of_false (fun hagree => creates_not_visible h h' hkey hexpired hagree.visible) ?_
      exact fun hnot => hnot hC ⟨entry, hkey, hexpired⟩
    · obtain ⟨hanswer, rfl⟩ := hrefused hC
      refine iff_of_true ⟨hanswer, (moves_visible_iff h h').mpr ?_⟩ fun hC' => absurd hC' hC
      rw [CellOp.onEntry_nop, CellOp.onEntry_nop, live_live]

/-- A call that checks its key, creates it where it is missing, and reads nothing else but its entry. -/
theorem validated_agree_iff {α : Type} {call : KvStore → Except KvStoreError α × KvStore}
    {f : Value → Value} {first : Value}
    (hmoves : ∀ t : KvStore, Moves t (call t).2
      [(key, if t.config.ValidKey key then .edit f (some first) else .nop)])
    (hreads : ∀ t t' : KvStore, t.validateKey key = t'.validateKey key →
      t.store[key]? = t'.store[key]? → (call t).1 = (call t').1)
    (hrefused : ∀ (t : KvStore) (e : KvStoreError), t.validateKey key = .error e →
      (call t).1 = .error e) :
    Agree now (call s) (call (s.purge now)) ↔ (s.config.ValidKey key → ¬ s.ExpiredAt now key) := by
  refine creating_agree_iff (hmoves s) (hmoves (s.purge now))
    (fun hstore => hreads s (s.purge now) rfl hstore.symm)
    (fun hvalid => ⟨f, first, if_pos hvalid⟩) fun hvalid => ?_
  obtain ⟨e, he⟩ := validateKey_refused s key hvalid
  exact ⟨(hrefused s e he).trans (hrefused (s.purge now) e he).symm, if_neg hvalid⟩

/-- A call whose answer tells an expired entry from none. -/
theorem telling_agree_iff {α : Type} {r r' : α × KvStore} {op op' : CellOp}
    (h : Moves s r.2 [(key, op)]) (h' : Moves (s.purge now) r'.2 [(key, op')])
    (hop : (s.purge now).store[key]? = s.store[key]? → r.1 = r'.1 ∧ op = op')
    (htells : ∀ entry, s.store[key]? = some entry → entry.expired now = true →
      (s.purge now).store[key]? = none → r.1 ≠ r'.1) :
    Agree now r r' ↔ ¬ s.ExpiredAt now key := by
  rcases purge_cases s now key with ⟨hlive, hstore⟩ | ⟨entry, hkey, hexpired, hnone⟩
  · obtain ⟨hanswer, rfl⟩ := hop hstore
    exact iff_of_true ⟨hanswer, moves_visible_of_same h h' hstore⟩ hlive
  · exact iff_of_false (fun hagree => htells entry hkey hexpired hnone hagree.answer)
      fun hnot => hnot ⟨entry, hkey, hexpired⟩

/-! ## Puts -/

/-- What the put of this value spares, of what a reader then sees, it would spare without the bytes of
expired entries. -/
def SparesAlike (s : KvStore) (now : Nat) (key : String) (value : Value) : Prop :=
  s.config.Capped → ∀ k ∈ s.recencyWith key, k = key ∨ s.visible now k ≠ none →
    s.stats.memoryBytes + estimateValueSize value
        ≤ s.config.maxMemoryBytes + bytesAhead s.contents (s.recencyWith key) k →
      s.stats.memoryBytes + estimateValueSize value
        ≤ s.config.maxMemoryBytes + bytesAhead (s.visible now) (s.recencyWith key) k

theorem putTakes_purge_iff {value : Value} {k : String} :
    (s.purge now).PutTakes key value k ↔ s.config.Capped ∧ k ∈ s.recencyWith key ∧
      s.config.maxMemoryBytes + bytesAhead (s.visible now) (s.recencyWith key) k
        < s.stats.memoryBytes + estimateValueSize value := by
  rw [← purge_contents]
  rfl

theorem cellSize_live_le (e : Option ValueWithTTL) : cellSize (live now e) ≤ cellSize e := by
  cases e with
  | none => exact Nat.le_refl _
  | some entry =>
      cases h : entry.expired now with
      | true => rw [live_expired h]; exact Nat.zero_le _
      | false => rw [live_some h]

/-- The put takes the same of what a reader sees, or is the reader's new key. -/
theorem sparesAlike_iff {value : Value} : s.SparesAlike now key value ↔
    ∀ k, k = key ∨ s.visible now k ≠ none →
      (s.PutTakes key value k ↔ (s.purge now).PutTakes key value k) := by
  have hmono : ∀ k, bytesAhead (s.visible now) (s.recencyWith key) k
      ≤ bytesAhead s.contents (s.recencyWith key) k := fun k =>
    Lib.Weight.ahead_mono entrySize fun j => cellSize_live_le (s.contents j)
  constructor
  · intro h k hk
    rw [putTakes_purge_iff]
    have := hmono k
    constructor
    · rintro ⟨hcapped, hin, hover⟩
      exact ⟨hcapped, hin, by omega⟩
    · rintro ⟨hcapped, hin, hover⟩
      refine ⟨hcapped, hin, ?_⟩
      by_contra hfits
      have := h hcapped k hin hk (by omega)
      omega
  · intro h hcapped k hin hk hfits
    by_contra hover
    have htaken := (h k hk).mpr (putTakes_purge_iff.mpr ⟨hcapped, hin, by omega⟩)
    have := htaken.2.2
    omega

theorem setWithExpiry_answer_purge (value : Value) (expiresAt : Option Nat) :
    (s.setWithExpiry now key value expiresAt).1
      = ((s.purge now).setWithExpiry now key value expiresAt).1 := by
  unfold setWithExpiry queueOperation
  rw [show (s.purge now).validateKey key = s.validateKey key from rfl,
    show (s.purge now).validateValue value = s.validateValue value from rfl,
    show (s.purge now).inTransaction = s.inTransaction from rfl,
    show (s.purge now).transactionQueue = s.transactionQueue from rfl]
  cases s.validateKey key with
  | error e => rfl
  | ok u =>
      cases s.validateValue value with
      | error e => rfl
      | ok u =>
          simp only
          split
          · cases s.transactionQueue <;> rfl
          · rfl

/-- A refused or queued put changes nothing that is read. -/
theorem setWithExpiry_contents_of_not {value : Value} (expiresAt : Option Nat)
    (h : ¬ (s.config.Valid key value ∧ s.transactionQueue = none)) :
    (s.setWithExpiry now key value expiresAt).2.contents = s.contents := by
  by_cases hvalid : s.config.Valid key value
  · cases htx : s.transactionQueue with
    | none => exact absurd ⟨hvalid, htx⟩ h
    | some queue => rw [setWithExpiry_queued hvalid htx]; rfl
  · obtain ⟨e, he⟩ := setWithExpiry_refused now expiresAt hvalid
    rw [he]

theorem live_ite_eq_iff {P Q : Prop} [Decidable P] [Decidable Q] {e : Option ValueWithTTL} :
    live now (if P then none else e) = live now (if Q then none else live now e) ↔
      (live now e ≠ none → (P ↔ Q)) := by
  by_cases hP : P <;> by_cases hQ : Q <;> simp [hP, hQ, eq_comm]

/-- After the two puts a reader sees the same if and only if they spare alike. -/
theorem put_visible_iff {value : Value} {expiresAt : Option Nat}
    (hlive : (⟨value, expiresAt⟩ : ValueWithTTL).expired now = false) :
    (s.setWithExpiry now key value expiresAt).2.visible now
        = ((s.purge now).setWithExpiry now key value expiresAt).2.visible now ↔
      (s.inTransaction = false → s.config.Valid key value → s.SparesAlike now key value) := by
  classical
  by_cases hput : s.config.Valid key value ∧ s.transactionQueue = none
  · obtain ⟨hvalid, htx⟩ := hput
    have hopen : s.inTransaction = false := by rw [inTransaction, htx]; rfl
    have hs : ∀ k, (s.setWithExpiry now key value expiresAt).2.contents k = _ :=
      put_contents hvalid htx
    have hp : ∀ k, ((s.purge now).setWithExpiry now key value expiresAt).2.contents k = _ :=
      put_contents (s := s.purge now) hvalid htx
    rw [imp_iff_right hopen, imp_iff_right hvalid, sparesAlike_iff, funext_iff]
    apply forall_congr'
    intro k
    show live now _ = live now _ ↔ _
    rw [hs, hp, purge_contents]
    by_cases hk : k = key
    · rw [hk, Function.update_self, Function.update_self, imp_iff_right (Or.inl rfl)]
      by_cases hP : s.PutTakes key value key <;>
        by_cases hQ : (s.purge now).PutTakes key value key <;> simp [hP, hQ, live_some hlive]
    · rw [Function.update_of_ne hk, Function.update_of_ne hk, or_iff_right hk]
      exact live_ite_eq_iff
  · have hs : (s.setWithExpiry now key value expiresAt).2.contents = s.contents :=
      setWithExpiry_contents_of_not expiresAt hput
    have hp : ((s.purge now).setWithExpiry now key value expiresAt).2.contents
        = (s.purge now).contents := setWithExpiry_contents_of_not (s := s.purge now) expiresAt hput
    refine iff_of_true ?_ fun hopen hvalid => absurd ⟨hvalid, by simpa [inTransaction] using hopen⟩ hput
    unfold visible
    rw [hs, hp, purge_contents]
    exact funext fun k => (live_live _).symm

theorem put_agree_iff {value : Value} {expiresAt : Option Nat}
    (hlive : (⟨value, expiresAt⟩ : ValueWithTTL).expired now = false) :
    Agree now (s.setWithExpiry now key value expiresAt)
        ((s.purge now).setWithExpiry now key value expiresAt) ↔
      (s.inTransaction = false → s.config.Valid key value → s.SparesAlike now key value) :=
  ⟨fun h => (put_visible_iff hlive).mp h.visible,
    fun h => ⟨setWithExpiry_answer_purge value expiresAt, (put_visible_iff hlive).mpr h⟩⟩

theorem checkedAdd_live (value : Value) (ttl : Nat) :
    (⟨value, checkedAdd now ttl⟩ : ValueWithTTL).expired now = false := by
  unfold checkedAdd
  split
  · exact decide_eq_false (by omega)
  · rfl

theorem getset_answer (value : Value) : (s.getset now key value).1
    = (s.set now key value).1.map fun _ => s.store[key]?.map ValueWithTTL.value := by
  unfold getset
  rcases s.set now key value with ⟨_ | _, t⟩ <;> rfl

/-- GETSET returns what it overwrites, expired or not. -/
theorem getset_agree_iff (value : Value) :
    Agree now (s.getset now key value) ((s.purge now).getset now key value) ↔
      (s.config.Valid key value → ¬ s.ExpiredAt now key ∧
        (s.inTransaction = false → s.SparesAlike now key value)) := by
  have hvisible : (s.getset now key value).2.visible now
      = ((s.purge now).getset now key value).2.visible now ↔
        (s.inTransaction = false → s.config.Valid key value → s.SparesAlike now key value) := by
    rw [getset_snd, getset_snd]
    exact put_visible_iff rfl
  have hanswer : (s.getset now key value).1 = ((s.purge now).getset now key value).1 ↔
      (s.config.Valid key value → ¬ s.ExpiredAt now key) := by
    have hset : (s.set now key value).1 = ((s.purge now).set now key value).1 :=
      setWithExpiry_answer_purge value none
    rw [getset_answer, getset_answer, ← hset]
    by_cases hvalid : s.config.Valid key value
    · rw [set_ok now hvalid, imp_iff_right hvalid]
      rcases purge_cases s now key with ⟨hlive, hstore⟩ | ⟨entry, hkey, hexpired, hnone⟩
      · rw [hstore]
        exact iff_of_true rfl hlive
      · rw [hkey, hnone]
        refine iff_of_false (fun h => ?_) fun hnot => hnot ⟨entry, hkey, hexpired⟩
        cases h
    · obtain ⟨e, he⟩ := setWithExpiry_refused now none hvalid
      rw [set, he]
      exact iff_of_true rfl fun h => absurd h hvalid
  constructor
  · exact fun h hvalid => ⟨hanswer.mp h.answer hvalid, fun hopen => hvisible.mp h.visible hopen hvalid⟩
  · exact fun h => ⟨hanswer.mpr fun hvalid => (h hvalid).1,
      hvisible.mpr fun hopen hvalid => (h hvalid).2 hopen⟩

end

end KvStore

end Daikon
