/-
# Daikon.Store.Absent -- which calls treat an expired entry as absent

`expire` and all reads do. A counter, `persist`, `delete` and `getset` find the expired entry and count
on it, revive it or return it; list, hash and HyperLogLog calls extend it where a new one was asked for;
a put may spare a key because of its bytes. For every call that takes a key, this module says exactly
when it nevertheless does what it does without the expired entries (`absent_iff`).

The condition is `KeyOp.AvoidsExpired`, a predicate on the state before the call with one line for each kind
of call. Most lines say that the call is refused for its key, or that the key has no expired entry. The
others are the cases in which a call runs into an expired entry and yet nobody can tell: a pop of an expired
list that is empty, an HDEL of fields that the expired hash lacks, an APPEND to an expired empty string, a
merge in which the expired sketches are nowhere ahead.

The direction that takes work is that in all other cases somebody can tell, by the answer or by a read
afterwards. For the calls that do one thing at their key this comes from `Daikon.Store.Agree`; a put has to
be followed through the eviction behind it. `mset` takes pairs and not a key, and is left out.
-/
import Daikon.Store.Agree
import Daikon.Store.Merge
import Daikon.Store.Text

namespace Daikon

namespace KvStore

section

variable {s : KvStore} {now : Nat} {key : String}

/-! ## Counters, `persist`, `delete`, `expire` -/

theorem addToInt_agree_iff (amount : Int64) :
    Agree now (s.addToInt key amount) ((s.purge now).addToInt key amount) ↔
      ¬ s.ExpiredAt now key := by
  refine telling_agree_iff (addToInt_moves s key amount) (addToInt_moves (s.purge now) key amount)
    (fun hstore => ⟨?_, rfl⟩) fun entry hkey _ hnone => ?_
  · unfold addToInt
    rw [hstore]
    rcases s.store[key]? with _ | ⟨_ | _, _⟩ <;> rfl
  · unfold addToInt
    rw [hkey, hnone]
    rcases entry with ⟨_ | _, _⟩ <;> simp

/-- `persist` makes an expired entry readable again. -/
theorem persist_agree_iff :
    Agree now (s.persist now key) ((s.purge now).persist now key) ↔ ¬ s.ExpiredAt now key := by
  refine telling_agree_iff (persist_moves s key now) (persist_moves (s.purge now) key now)
    (fun hstore => ⟨?_, rfl⟩) fun entry hkey hexpired hnone => ?_
  · unfold persist
    rw [hstore]
    cases s.store[key]? with
    | none => rfl
    | some entry => simp only; split <;> rfl
  · unfold persist
    rw [hkey, hnone]
    obtain ⟨value, expiresAt⟩ := entry
    cases expiresAt with
    | none => cases hexpired
    | some exp => simp

theorem delete_agree_iff :
    Agree now (s.delete now key) ((s.purge now).delete now key) ↔ ¬ s.ExpiredAt now key := by
  have hanswer : ∀ t : KvStore, (t.delete now key).1 = t.store[key]?.map ValueWithTTL.value := by
    intro t
    unfold delete
    split
    · rfl
    · cases t.store[key]? <;> rfl
  refine telling_agree_iff (delete_moves s key now) (delete_moves (s.purge now) key now)
    (fun hstore => ⟨?_, rfl⟩) fun entry hkey _ hnone => ?_
  · rw [hanswer, hanswer, hstore]
  · rw [hanswer, hanswer, hkey, hnone]
    simp

theorem expire_agree (ttl : Nat) :
    Agree now (s.expire now key ttl) ((s.purge now).expire now key ttl) := by
  rcases purge_cases s now key with ⟨-, hstore⟩ | ⟨entry, hkey, hexpired, hnone⟩
  · refine ⟨?_, moves_visible_of_same (expire_moves s key now ttl)
      (expire_moves (s.purge now) key now ttl) hstore⟩
    unfold expire
    rw [hstore]
    cases s.store[key]? with
    | none => rfl
    | some entry => simp only; split <;> rfl
  · have hs : s.expire now key ttl = (false, s) := by
      unfold expire
      rw [hkey]
      exact if_pos hexpired
    have hp : (s.purge now).expire now key ttl = (false, s.purge now) := by
      unfold expire
      rw [hnone]
    rw [hs, hp]
    exact ⟨rfl, (purge_visible s now).symm⟩

/-! ## Lists and hashes -/

theorem pushWith_agree_iff (push : List String → List String → List String) (values : List String) :
    Agree now (s.pushWith push key values) ((s.purge now).pushWith push key values) ↔
      (s.config.ValidKey key → ¬ s.ExpiredAt now key) := by
  refine validated_agree_iff (fun t => pushWith_moves t key push values)
    (fun t t' hkey hstore => ?_) fun t e he => ?_
  · unfold pushWith
    rw [hkey, hstore]
    cases t'.validateKey key with
    | error e => rfl
    | ok u => rcases t'.store[key]? with _ | ⟨_ | _, _⟩ <;> rfl
  · unfold pushWith
    rw [he]

theorem hset_agree_iff (fields : Fields) :
    Agree now (s.hset key fields) ((s.purge now).hset key fields) ↔
      (s.config.ValidKey key → ¬ s.ExpiredAt now key) := by
  refine validated_agree_iff (fun t => hset_moves t key fields) (fun t t' hkey hstore => ?_)
    fun t e he => ?_
  · unfold hset
    rw [hkey, hstore]
    cases t'.validateKey key with
    | error e => rfl
    | ok u => rcases t'.store[key]? with _ | ⟨_ | _, _⟩ <;> rfl
  · unfold hset
    rw [he]

theorem addToField_agree_iff {N : Type} (parse : String → Option N) (zero : N) (add : N → N → N)
    (show_ : N → String) (field : String) (amount : N) :
    Agree now (s.addToField parse zero add show_ key field amount)
        ((s.purge now).addToField parse zero add show_ key field amount) ↔
      (s.config.ValidKey key → ¬ s.ExpiredAt now key) := by
  refine validated_agree_iff
    (fun t => addToField_moves t key parse zero add show_ field amount)
    (fun t t' hkey hstore => ?_) fun t e he => ?_
  · unfold addToField
    rw [hkey, hstore]
    cases t'.validateKey key with
    | error e => rfl
    | ok u => rcases t'.store[key]? with _ | ⟨_ | _, _⟩ <;> rfl
  · unfold addToField
    rw [he]

/-- A pop finds nothing in an expired list only if the list is empty. -/
theorem popWith_agree_iff {pop : List String → Option (String × List String)}
    (hpop : ∀ items, pop items = none ↔ items = []) :
    Agree now (s.popWith pop key) ((s.purge now).popWith pop key) ↔
      (s.ExpiredAt now key → s.values key = some (.list [])) := by
  rcases purge_cases s now key with ⟨hlive, hstore⟩ | ⟨entry, hkey, hexpired, hnone⟩
  · refine iff_of_true ⟨?_, moves_visible_of_same (popWith_moves s key pop)
      (popWith_moves (s.purge now) key pop) hstore⟩ fun h => absurd h hlive
    unfold popWith
    rw [hstore]
    rcases s.store[key]? with _ | ⟨_ | _ | _ | _ | _ | _ | items | _, _⟩
    case some.list => simp only; cases pop items <;> rfl
    all_goals rfl
  · have hpurged : (s.purge now).popWith pop key = (.ok none, s.purge now) := by
      unfold popWith
      rw [hnone]
    have hvalue : s.values key = some entry.value := congrArg (Option.map ValueWithTTL.value) hkey
    rw [imp_iff_right ⟨entry, hkey, hexpired⟩, hvalue, hpurged]
    obtain ⟨value, expiresAt⟩ := entry
    unfold popWith
    rw [hkey]
    cases value with
    | list items =>
        simp only
        cases hitems : pop items with
        | none =>
            rw [(hpop items).mp hitems]
            exact iff_of_true ⟨rfl, (purge_visible s now).symm⟩ rfl
        | some popped =>
            refine iff_of_false (fun h => by cases h.answer) fun h => ?_
            have hempty : items = [] := by simpa using h
            rw [(hpop items).mpr hempty] at hitems
            cases hitems
    | _ => exact iff_of_false (fun h => by cases h.answer) fun h => by cases h

theorem removeFields_snd_eq_zero {map : Fields} {fields : List String} :
    (removeFields map fields).2 = 0 ↔ ∀ f ∈ fields, map[f]? = none := by
  have hfold : ∀ (l : List String) (m : Fields) (n : Nat),
      n ≤ (l.foldl (fun acc f => (acc.1.erase f, if acc.1.contains f then acc.2 + 1 else acc.2))
        (m, n)).2 ∧
      ((l.foldl (fun acc f => (acc.1.erase f, if acc.1.contains f then acc.2 + 1 else acc.2))
        (m, n)).2 = n ↔ ∀ f ∈ l, m[f]? = none) := by
    intro l
    induction l with
    | nil => exact fun m n => ⟨Nat.le_refl _, by simp⟩
    | cons f l ih =>
        intro m n
        rw [List.foldl_cons, Std.ExtTreeMap.contains_eq_isSome_getElem?]
        cases hf : m[f]? with
        | none =>
            have hsame : m.erase f = m := Lib.Lookup.erase_of_none m hf
            rw [hsame]
            simp only [Option.isSome_none, Bool.false_eq_true, if_false, List.forall_mem_cons, hf,
              true_and]
            exact ih m n
        | some text =>
            have hle := (ih (m.erase f) (n + 1)).1
            simp only [Option.isSome_some, if_true]
            refine ⟨by omega, iff_of_false (by omega) fun h => ?_⟩
            have := h f List.mem_cons_self
            rw [hf] at this
            cases this
  exact (hfold fields map 0).2

/-- HDEL finds nothing in an expired hash only if the hash has none of the fields. -/
theorem hdel_agree_iff (fields : List String) :
    Agree now (s.hdel key fields) ((s.purge now).hdel key fields) ↔
      (s.ExpiredAt now key → ∃ map, s.values key = some (.hash map) ∧ ∀ f ∈ fields, map[f]? = none) := by
  rcases purge_cases s now key with ⟨hlive, hstore⟩ | ⟨entry, hkey, hexpired, hnone⟩
  · refine iff_of_true ⟨?_, moves_visible_of_same (hdel_moves s key fields)
      (hdel_moves (s.purge now) key fields) hstore⟩ fun h => absurd h hlive
    unfold hdel
    rw [hstore]
    rcases s.store[key]? with _ | ⟨_ | _, _⟩ <;> rfl
  · have hpurged : (s.purge now).hdel key fields = (.ok 0, s.purge now) := by
      unfold hdel
      rw [hnone]
    have hvalue : s.values key = some entry.value := congrArg (Option.map ValueWithTTL.value) hkey
    have hvisible := (moves_visible_iff (hdel_moves s key fields)
      (hdel_moves (s.purge now) key fields)).mpr (by
        rw [show s.contents key = some entry from hkey, live_expired hexpired]
        exact live_expired (by exact hexpired))
    rw [imp_iff_right ⟨entry, hkey, hexpired⟩, hvalue]
    constructor
    · intro h
      have hanswer := h.answer
      rw [hpurged] at hanswer
      unfold hdel at hanswer
      rw [hkey] at hanswer
      obtain ⟨value, expiresAt⟩ := entry
      cases value with
      | hash map => exact ⟨map, rfl, removeFields_snd_eq_zero.mp (by simpa using hanswer)⟩
      | _ => cases hanswer
    · rintro ⟨map, hmap, hfields⟩
      refine ⟨?_, hvisible⟩
      rw [hpurged]
      unfold hdel
      rw [hkey]
      obtain ⟨value, expiresAt⟩ := entry
      obtain rfl : value = .hash map := by simpa using hmap
      exact congrArg Except.ok (removeFields_snd_eq_zero.mpr hfields)

/-! ## APPEND -/

theorem append_absent_eq (value : String) (hkey : s.store[key]? = none) : s.append now key value
    = ((s.set now key (.str value)).1.map fun _ => value.utf8ByteSize,
        (s.set now key (.str value)).2) := by
  unfold append
  rw [hkey]
  simp only
  rcases s.set now key (.str value) with ⟨_ | _, t⟩ <;> rfl

theorem visible_of_expired {entry : ValueWithTTL} (hkey : s.store[key]? = some entry)
    (hexpired : entry.expired now = true) : s.visible now key = none := by
  show live now s.store[key]? = none
  rw [hkey, live_expired hexpired]

theorem append_expired_visible (value : String) {entry : ValueWithTTL}
    (hkey : s.store[key]? = some entry) (hexpired : entry.expired now = true) :
    (s.append now key value).2.visible now = s.visible now := by
  have hcell : s.contents key = some entry := hkey
  have hcontents : (s.append now key value).2.contents = Function.update s.contents key _ :=
    (append_present s key now value hkey).contents
  funext k
  unfold visible
  rw [hcontents]
  by_cases hk : k = key
  · rw [hk, Function.update_self, hcell, live_expired hexpired]
    exact live_expired (by exact hexpired)
  · rw [Function.update_of_ne hk]

/-- A put is not seen only if it takes its own key, and nothing else that a reader saw. -/
theorem put_unseen_iff {value : Value} (hvalid : s.config.Valid key value)
    (hnone : s.visible now key = none) :
    s.visible now = ((s.purge now).set now key value).2.visible now ↔
      (s.inTransaction = false → (s.purge now).PutTakes key value key ∧
        ∀ k, s.visible now k ≠ none → ¬ (s.purge now).PutTakes key value k) := by
  classical
  cases htx : s.transactionQueue with
  | some queue =>
      have hin : s.inTransaction = true := by rw [inTransaction, htx]; rfl
      have hsame : ((s.purge now).set now key value).2.contents = (s.purge now).contents :=
        setWithExpiry_contents_of_not (s := s.purge now) none fun h => by
          have hopen : s.transactionQueue = none := h.2
          rw [htx] at hopen
          cases hopen
      refine iff_of_true ?_ fun hopen => absurd (hin.symm.trans hopen) (by simp)
      unfold visible
      rw [hsame, purge_contents]
      exact funext fun k => (live_live _).symm
  | none =>
      have hopen : s.inTransaction = false := by rw [inTransaction, htx]; rfl
      have hp : ∀ k, ((s.purge now).set now key value).2.contents k = _ :=
        put_contents (s := s.purge now) hvalid htx
      have hat : ∀ k, s.visible now k = ((s.purge now).set now key value).2.visible now k ↔
          (k = key → (s.purge now).PutTakes key value key) ∧
            (s.visible now k ≠ none → ¬ (s.purge now).PutTakes key value k) := by
        intro k
        show _ = live now _ ↔ _
        rw [hp, purge_contents]
        by_cases hk : k = key
        · rw [hk, Function.update_self, hnone]
          by_cases hP : (s.purge now).PutTakes key value key
          · simp [hP]
          · rw [if_neg hP, live_some rfl]
            simp [hP]
        · have hself : live now (s.visible now k) = s.visible now k := live_live _
          rw [Function.update_of_ne hk]
          by_cases hP : (s.purge now).PutTakes key value k
          · simp [hP, hk]
          · simp [hP, hk, hself]
      rw [imp_iff_right hopen, funext_iff]
      constructor
      · exact fun h => ⟨((hat key).mp (h key)).1 rfl, fun k => ((hat k).mp (h k)).2⟩
      · exact fun h k => (hat k).mpr ⟨fun _ => h.1, h.2 k⟩

/-- A refused put has nothing to say about types. -/
theorem set_ne_typeMismatch (value : Value) (k expected got : String) :
    (s.set now key value).1 ≠ .error (.typeMismatch k expected got) := by
  grind [set, setWithExpiry, validateKey, validateValue, queueOperation]

/-- APPEND to a missing key is a put of the text. -/
theorem append_missing_agree_iff (value : String) (hkey : s.store[key]? = none)
    (hpurged : (s.purge now).store[key]? = none) :
    Agree now (s.append now key value) ((s.purge now).append now key value) ↔
      (s.inTransaction = false → s.config.Valid key (.str value) →
        s.SparesAlike now key (.str value)) := by
  rw [append_absent_eq value hkey, append_absent_eq value hpurged]
  have hput : Agree now (s.set now key (.str value)) ((s.purge now).set now key (.str value)) ↔ _ :=
    put_agree_iff rfl
  rw [← hput]
  constructor
  · exact fun h => ⟨setWithExpiry_answer_purge _ none, h.visible⟩
  · exact fun h => ⟨congrArg (Except.map fun _ => value.utf8ByteSize) h.answer, h.visible⟩

/-- APPEND to a live entry looks at nothing else. -/
theorem append_live_agree {entry : ValueWithTTL} (value : String) (hkey : s.store[key]? = some entry)
    (hsame : (s.purge now).store[key]? = s.store[key]?) :
    Agree now (s.append now key value) ((s.purge now).append now key value) := by
  refine ⟨?_, moves_visible_of_same (append_present s key now value hkey)
    (append_present (s.purge now) key now value (hsame.trans hkey)) hsame⟩
  unfold append
  rw [hsame, hkey]
  rcases entry with ⟨_ | _, _⟩ <;> rfl

/-- APPEND to an expired entry that is no string is refused for its type, which no put is. -/
theorem append_expired_mismatch {old : Value} {expiresAt : Option Nat} (value : String)
    (hkey : s.store[key]? = some ⟨old, expiresAt⟩) (hold : ∀ text, old ≠ .str text)
    (hnone : (s.purge now).store[key]? = none) :
    ¬ Agree now (s.append now key value) ((s.purge now).append now key value) := by
  have hanswer : (s.append now key value).1 = .error (.typeMismatch key "Str" old.typeName) := by
    unfold append
    rw [hkey]
    cases old with
    | str text => exact absurd rfl (hold text)
    | _ => rfl
  intro hagree
  have hset := hagree.answer
  rw [hanswer, append_absent_eq value hnone] at hset
  cases h : ((s.purge now).set now key (.str value)).1 with
  | error e =>
      rw [h] at hset
      cases hset
      exact set_ne_typeMismatch (s := s.purge now) _ key _ _ h
  | ok u =>
      rw [h] at hset
      cases hset

/-- APPEND extends an expired string, which is seen as a put of the text alone only if the string is
empty and nothing visible is taken. -/
theorem append_expired_agree_iff {entry : ValueWithTTL} (value : String)
    (hkey : s.store[key]? = some entry) (hexpired : entry.expired now = true)
    (hnone : (s.purge now).store[key]? = none) :
    Agree now (s.append now key value) ((s.purge now).append now key value) ↔
      entry.value = .str "" ∧ s.config.Valid key (.str value) ∧
        (s.inTransaction = false → (s.purge now).PutTakes key (.str value) key ∧
          ∀ k, s.visible now k ≠ none → ¬ (s.purge now).PutTakes key (.str value) k) := by
  obtain ⟨old, expiresAt⟩ := entry
  by_cases htext : ∃ text, old = .str text
  · obtain ⟨text, rfl⟩ := htext
    have hanswer : (s.append now key value).1 = .ok (text ++ value).utf8ByteSize := by
      unfold append
      rw [hkey]
    rw [append_absent_eq value hnone]
    by_cases hvalid : s.config.Valid key (.str value)
    · have hset : ((s.purge now).set now key (.str value)).1 = .ok () := set_ok now hvalid
      have hempty : (text ++ value).utf8ByteSize = value.utf8ByteSize ↔ text = "" := by
        rw [String.utf8ByteSize_append, ← String.utf8ByteSize_eq_zero_iff]
        omega
      rw [and_iff_right hvalid, ← put_unseen_iff hvalid (visible_of_expired hkey hexpired),
        ← append_expired_visible value hkey hexpired]
      constructor
      · intro h
        have hlength := h.answer
        rw [hanswer, hset] at hlength
        exact ⟨congrArg Value.str (hempty.mp (Except.ok.inj hlength)), h.visible⟩
      · rintro ⟨htext, hseen⟩
        refine ⟨?_, hseen⟩
        rw [hanswer, hset, hempty.mpr (Value.str.inj htext)]
        rfl
    · obtain ⟨e, he⟩ := setWithExpiry_refused (s := s.purge now) now none hvalid
      refine iff_of_false (fun h => ?_) fun h => hvalid h.2.1
      have hlength := h.answer
      rw [hanswer, set, he] at hlength
      cases hlength
  · exact iff_of_false
      (append_expired_mismatch value hkey (fun text hold => htext ⟨text, hold⟩) hnone)
      fun h => htext ⟨_, h.1⟩

/-- APPEND extends an expired string. That is a put of the text alone only if the string is empty, and
is seen as one only where a put is queued, or takes nothing but its own key. -/
theorem append_agree_iff (value : String) :
    Agree now (s.append now key value) ((s.purge now).append now key value) ↔
      (s.ExpiredAt now key →
        s.values key = some (.str "") ∧ s.config.Valid key (.str value) ∧
          (s.inTransaction = false → (s.purge now).PutTakes key (.str value) key ∧
            ∀ k, s.visible now k ≠ none → ¬ (s.purge now).PutTakes key (.str value) k)) ∧
      (s.contents key = none → s.inTransaction = false → s.config.Valid key (.str value) →
        s.SparesAlike now key (.str value)) := by
  rcases purge_cases s now key with ⟨hlive, hstore⟩ | ⟨entry, hkey, hexpired, hnone⟩
  · rw [and_iff_right fun h => absurd h hlive]
    cases hkey : s.store[key]? with
    | none =>
        have hcell : s.contents key = none := hkey
        rw [imp_iff_right hcell]
        exact append_missing_agree_iff value hkey (hstore.trans hkey)
    | some entry =>
        have hcell : s.contents key = some entry := hkey
        exact iff_of_true (append_live_agree value hkey hstore) fun h => by
          rw [hcell] at h
          cases h
  · have hcell : s.contents key = some entry := hkey
    have hpast : s.ExpiredAt now key := ⟨entry, hcell, hexpired⟩
    have hvalue : s.values key = some entry.value := congrArg (Option.map ValueWithTTL.value) hcell
    have hpresent : s.contents key ≠ none := by simp [hcell]
    rw [imp_iff_right hpast, and_iff_left fun h : s.contents key = none => absurd h hpresent,
      hvalue, Option.some.injEq]
    exact append_expired_agree_iff value hkey hexpired hnone

/-! ## HyperLogLog keys -/

theorem pfadd_agree_iff (rt : Runtime) (values : List String) :
    Agree now (s.pfadd rt key values) ((s.purge now).pfadd rt key values) ↔
      (s.config.ValidKey key ∧ values ≠ [] → ¬ s.ExpiredAt now key) := by
  refine creating_agree_iff (pfadd_moves rt s key values) (pfadd_moves rt (s.purge now) key values)
    (fun hstore => ?_) (fun h => ⟨_, _, (if_pos h.1).trans (if_neg (by simpa using h.2))⟩)
    fun h => ⟨?_, ?_⟩
  · unfold pfadd
    rw [hstore, show (s.purge now).validateKey key = s.validateKey key from rfl]
    cases s.validateKey key with
    | error e => rfl
    | ok u =>
        simp only
        split
        · rfl
        · rcases s.store[key]? with _ | ⟨_ | _, _⟩ <;> rfl
  · unfold pfadd
    rw [show (s.purge now).validateKey key = s.validateKey key from rfl]
    by_cases hvalid : s.config.ValidKey key
    · have hempty : values = [] := by_contra fun hne => h ⟨hvalid, hne⟩
      rw [validateKey_eq s key hvalid, hempty]
      rfl
    · obtain ⟨e, he⟩ := validateKey_refused s key hvalid
      rw [he]
  · unfold CellOp.addValues
    by_cases hvalid : s.config.ValidKey key
    · have hempty : values = [] := by_contra fun hne => h ⟨hvalid, hne⟩
      rw [if_pos hvalid, hempty]
      rfl
    · rw [if_neg hvalid]

theorem pfreserve_agree_iff (precision : Nat) :
    Agree now (s.pfreserve key precision) ((s.purge now).pfreserve key precision) ↔
      (s.config.ValidKey key → ¬ s.ExpiredAt now key) := by
  refine validated_agree_iff (fun t => pfreserve_moves t key precision)
    (fun t t' hkey hstore => ?_) fun t e he => ?_
  · have hcell : t.contents key = t'.contents key := hstore
    unfold pfreserve
    simp only [contains_eq]
    rw [hkey, hcell]
    cases t'.validateKey key with
    | error e => rfl
    | ok u => cases t'.contents key <;> rfl
  · unfold pfreserve
    rw [he]

/-- The expired sketches make no difference to the merge: it is refused by the same source, or no
register of an expired one is ahead of all the others. An expired destination counts as a new sketch, so
it has to be like one. -/
def MergesAlike (s : KvStore) (now : Nat) (destination : String) (sources : List String) : Prop :=
  match mergeStart (s.contents destination), mergeStart (s.visible now destination) with
  | some start, some start' =>
      (sourcesFound s.contents destination sources).findSome? (mergeRefusal start.precision)
          = (sourcesFound (s.visible now) destination sources).findSome?
              (mergeRefusal start'.precision) ∧
        ((sourcesFound s.contents destination sources).findSome? (mergeRefusal start.precision) = none →
          start.precision = start'.precision ∧ start.registers.length = start'.registers.length ∧
            ∀ hll ∈ start :: sketches (sourcesFound s.contents destination sources),
              ∀ i < start.registers.length,
                Reach (start' :: sketches (sourcesFound (s.visible now) destination sources)) i
                  (hll.register i))
  | none, none => True
  | _, _ => False

theorem visible_some {k : String} {entry : ValueWithTTL} (h : s.visible now k = some entry) :
    s.contents k = some entry := (Option.filter_eq_some_iff.mp h).1

theorem mergeStart_visible {destination : String} {start : HyperLogLog}
    (h : mergeStart (s.visible now destination) = some start) :
    mergeStart (s.contents destination) = some start ∨ start = .default := by
  cases hkey : s.visible now destination with
  | none =>
      rw [hkey] at h
      cases h
      exact .inr rfl
  | some entry =>
      rw [visible_some hkey, ← hkey]
      exact .inl h

theorem sketches_visible {destination : String} {sources : List String} {hll : HyperLogLog}
    (h : hll ∈ sketches (sourcesFound (s.visible now) destination sources)) :
    hll ∈ sketches (sourcesFound s.contents destination sources) := by
  obtain ⟨p, hp, hsketch⟩ := List.mem_filterMap.mp h
  obtain ⟨k, hk, hfound⟩ := List.mem_filterMap.mp hp
  obtain ⟨entry, hentry, rfl⟩ := Option.map_eq_some_iff.mp hfound
  refine List.mem_filterMap.mpr ⟨_, List.mem_filterMap.mpr ⟨k, hk, ?_⟩, hsketch⟩
  rw [visible_some hentry]
  rfl

theorem default_register (i : Nat) : HyperLogLog.default.register i = 0 :=
  HyperLogLog.new_register _ i

/-- A source's error names the source. -/
theorem mergeAll_mismatch {found : List (String × Value)} {start : HyperLogLog} {key expected got : String}
    (h : mergeAll found start = .error (.typeMismatch key expected got)) : ∃ v, (key, v) ∈ found := by
  cases hrefusal : found.findSome? (mergeRefusal start.precision) with
  | none =>
      obtain ⟨merged, hmerged, -⟩ := mergeAll_merged found start hrefusal
      rw [hmerged] at h
      cases h
  | some e =>
      rw [mergeAll_refused found start hrefusal] at h
      cases h
      obtain ⟨⟨k, v⟩, hin, hp⟩ := List.exists_of_findSome?_eq_some hrefusal
      cases v with
      | hyperLogLog hll =>
          rw [mergeRefusal] at hp
          split at hp <;> cases hp
      | _ => cases hp; exact ⟨_, hin⟩

theorem mergedSketch_agree_iff {destination : String} {sources : List String} :
    s.mergedSketch destination sources = (s.purge now).mergedSketch destination sources ↔
      s.MergesAlike now destination sources := by
  have hpurged : (s.purge now).contents = s.visible now := purge_contents s now
  unfold MergesAlike
  cases hstart : mergeStart (s.contents destination) with
  | some start =>
      cases hstart' : mergeStart (s.visible now destination) with
      | some start' =>
          have hmore : ∀ i n,
              Reach (start' :: sketches (sourcesFound (s.visible now) destination sources)) i n →
                n = 0 ∨ Reach (start :: sketches (sourcesFound s.contents destination sources)) i n := by
            rintro i n ⟨hll, hin, hle⟩
            rcases List.mem_cons.mp hin with rfl | hin
            · rcases mergeStart_visible hstart' with hsame | rfl
              · rw [hstart] at hsame
                cases hsame
                exact .inr ⟨start, List.mem_cons_self, hle⟩
              · rw [default_register] at hle
                exact .inl (by omega)
            · exact .inr ⟨hll, List.mem_cons_of_mem _ (sketches_visible hin), hle⟩
          rw [mergedSketch_of_start hstart, mergedSketch_of_start (s := s.purge now) (hpurged ▸ hstart'),
            hpurged]
          exact mergeAll_eq_iff hmore
      | none =>
          obtain ⟨entry, hentry, -⟩ := mergedSketch_of_mismatch (s := s.purge now) sources (hpurged ▸ hstart')
          rw [hpurged] at hentry
          rw [visible_some hentry, ← hentry, hstart'] at hstart
          cases hstart
  | none =>
      obtain ⟨entry, hentry, hmerged⟩ := mergedSketch_of_mismatch sources hstart
      rw [hmerged]
      cases hstart' : mergeStart (s.visible now destination) with
      | none =>
          obtain ⟨entry', hentry', hmerged'⟩ :=
            mergedSketch_of_mismatch (s := s.purge now) sources (hpurged ▸ hstart')
          rw [hpurged] at hentry'
          rw [visible_some hentry'] at hentry
          cases hentry
          exact iff_of_true hmerged'.symm trivial
      | some start' =>
          refine iff_of_false (fun h => ?_) id
          rw [mergedSketch_of_start (s := s.purge now) (hpurged ▸ hstart')] at h
          obtain ⟨v, hin⟩ := mergeAll_mismatch h.symm
          obtain ⟨k, hk, hfound⟩ := List.mem_filterMap.mp hin
          obtain ⟨entry', -, heq⟩ := Option.map_eq_some_iff.mp hfound
          cases heq
          simpa using (List.mem_filter.mp hk).2

/-- Two merges that come out show their sketches at the destination. -/
theorem pfmerge_merged_agree_iff {destination : String} {sources : List String}
    {merged merged' : HyperLogLog} (hvalid : s.config.ValidKey destination) (hsources : sources ≠ [])
    (hmerged : s.mergedSketch destination sources = .ok merged)
    (hmerged' : (s.purge now).mergedSketch destination sources = .ok merged') :
    Agree now (s.pfmerge destination sources) ((s.purge now).pfmerge destination sources) ↔
      merged = merged' := by
  have hafter := pfmerge_contents hvalid hsources hmerged
  have hafter' := pfmerge_contents (s := s.purge now) hvalid hsources hmerged'
  constructor
  · intro hagree
    have hcell := congrFun hagree.visible destination
    unfold visible at hcell
    rw [hafter, hafter', Function.update_self, Function.update_self, live_some rfl,
      live_some rfl] at hcell
    cases hcell
    rfl
  · rintro rfl
    refine ⟨?_, ?_⟩
    · rw [pfmerge_eq hvalid hsources, pfmerge_eq (s := s.purge now) hvalid hsources, hmerged, hmerged']
    · unfold visible
      rw [hafter, hafter', purge_contents]
      funext k
      by_cases hk : k = destination
      · rw [hk, Function.update_self, Function.update_self]
      · rw [Function.update_of_ne hk, Function.update_of_ne hk, visible, live_live]

/-- A merge that is refused for its key or for having no sources looks at no entry. -/
theorem pfmerge_unmerged {destination : String} {sources : List String}
    (h : ¬ (s.config.ValidKey destination ∧ sources ≠ [])) :
    ∃ e, ∀ t : KvStore, t.config = s.config → t.pfmerge destination sources = (.error e, t) := by
  by_cases hvalid : s.config.ValidKey destination
  · have hempty : sources = [] := by_contra fun hne => h ⟨hvalid, hne⟩
    refine ⟨.invalidValue "PFMERGE requires at least one source key", fun t ht => ?_⟩
    unfold pfmerge
    rw [validateKey_eq t destination (ht ▸ hvalid), hempty]
    rfl
  · obtain ⟨e, he⟩ := validateKey_refused s destination hvalid
    refine ⟨e, fun t ht => ?_⟩
    have hsame : t.validateKey destination = s.validateKey destination := by
      unfold validateKey
      rw [ht]
    unfold pfmerge
    rw [hsame, he]

theorem pfmerge_agree_iff {destination : String} {sources : List String} :
    Agree now (s.pfmerge destination sources) ((s.purge now).pfmerge destination sources) ↔
      (s.config.ValidKey destination ∧ sources ≠ [] → s.MergesAlike now destination sources) := by
  by_cases h : s.config.ValidKey destination ∧ sources ≠ []
  · obtain ⟨hvalid, hsources⟩ := h
    have hs := pfmerge_eq hvalid hsources
    have hp := pfmerge_eq (s := s.purge now) hvalid hsources
    rw [imp_iff_right ⟨hvalid, hsources⟩, ← mergedSketch_agree_iff]
    cases hmerged : s.mergedSketch destination sources with
    | error e =>
        rw [hmerged] at hs
        cases hmerged' : (s.purge now).mergedSketch destination sources with
        | error e' =>
            rw [hmerged'] at hp
            rw [hs, hp]
            constructor
            · exact fun hagree => congrArg Except.error (Except.error.inj hagree.answer)
            · rintro heq
              cases heq
              exact ⟨rfl, (purge_visible s now).symm⟩
        | ok merged' =>
            rw [hmerged'] at hp
            rw [hs, hp]
            exact iff_of_false (fun hagree => by cases hagree.answer) fun heq => by cases heq
    | ok merged =>
        cases hmerged' : (s.purge now).mergedSketch destination sources with
        | error e' =>
            rw [hmerged] at hs
            rw [hmerged'] at hp
            rw [hs, hp]
            exact iff_of_false (fun hagree => by cases hagree.answer) fun heq => by cases heq
        | ok merged' =>
            rw [Except.ok.injEq]
            exact pfmerge_merged_agree_iff hvalid hsources hmerged hmerged'
  · obtain ⟨e, he⟩ := pfmerge_unmerged h
    rw [he s rfl, he (s.purge now) rfl]
    exact iff_of_true ⟨rfl, (purge_visible s now).symm⟩ fun h' => absurd h' h

end

end KvStore

/-! ## Every call that takes a key -/

/-- All but `mset`, which takes pairs. -/
def Write.TakesKey : Write → Prop
  | mset _ => False
  | _ => True

/-- The public operations that take a key. -/
inductive KeyOp where
  | write (w : Write) (h : w.TakesKey)
  | pfreserve (key : String) (precision : Nat)
  | read (r : Read)

/-- The call does what it does on the store without the expired entries. -/
def KeyOp.TakesExpiredAsAbsent (rt : Runtime) (s : KvStore) (now : Nat) : KeyOp → Prop
  | write w _ => KvStore.Agree now (s.write rt now w) ((s.purge now).write rt now w)
  | pfreserve key precision =>
      KvStore.Agree now (s.pfreserve key precision) ((s.purge now).pfreserve key precision)
  | read r => KvStore.Agree now (s.read now r, s) ((s.purge now).read now r, s.purge now)

/-- The state in which a write does not run into an expired entry. -/
def Write.AvoidsExpired (s : KvStore) (now : Nat) : Write → Prop
  | set key value | setWithTtl key value _ =>
      s.inTransaction = false → s.config.Valid key value → s.SparesAlike now key value
  | getset key value => s.config.Valid key value → ¬ s.ExpiredAt now key ∧
      (s.inTransaction = false → s.SparesAlike now key value)
  | delete key | incr key | decr key | incrby key _ | persist key => ¬ s.ExpiredAt now key
  | append key value =>
      (s.ExpiredAt now key → s.values key = some (.str "") ∧ s.config.Valid key (.str value) ∧
        (s.inTransaction = false → (s.purge now).PutTakes key (.str value) key ∧
          ∀ k, s.visible now k ≠ none → ¬ (s.purge now).PutTakes key (.str value) k)) ∧
      (s.contents key = none → s.inTransaction = false → s.config.Valid key (.str value) →
        s.SparesAlike now key (.str value))
  | pfadd key values => s.config.ValidKey key ∧ values ≠ [] → ¬ s.ExpiredAt now key
  | pfmerge destination sources =>
      s.config.ValidKey destination ∧ sources ≠ [] → s.MergesAlike now destination sources
  | lpush key _ | rpush key _ | hset key _ | hincrby key _ _ | hincrbyfloat key _ _ =>
      s.config.ValidKey key → ¬ s.ExpiredAt now key
  | lpop key | rpop key => s.ExpiredAt now key → s.values key = some (.list [])
  | hdel key fields => s.ExpiredAt now key →
      ∃ map, s.values key = some (.hash map) ∧ ∀ f ∈ fields, map[f]? = none
  | expire _ _ | mset _ => True

/-- The state in which a call does not run into an expired entry. Reads and `expire` never do. -/
def KeyOp.AvoidsExpired (s : KvStore) (now : Nat) : KeyOp → Prop
  | write w _ => w.AvoidsExpired s now
  | pfreserve key _ => s.config.ValidKey key → ¬ s.ExpiredAt now key
  | read _ => True

namespace KvStore

theorem ok_agree_iff {α : Type} {f : α → Reply} (hf : Function.Injective f) {now : Nat}
    {r r' : α × KvStore} {t t' : Except KvStoreError Reply × KvStore} (ht : t = (.ok (f r.1), r.2))
    (ht' : t' = (.ok (f r'.1), r'.2)) : Agree now t t' ↔ Agree now r r' := by
  subst ht ht'
  exact ⟨fun h => ⟨hf (Except.ok.inj h.answer), h.visible⟩,
    fun h => ⟨congrArg (fun a => Except.ok (f a)) h.answer, h.visible⟩⟩

/-- A call that takes a key treats every expired entry as absent if and only if the state lets it avoid
them. -/
theorem absent_iff (rt : Runtime) (s : KvStore) (now : Nat) (op : KeyOp) :
    op.TakesExpiredAsAbsent rt s now ↔ op.AvoidsExpired s now := by
  have hunit : Function.Injective fun _ : Unit => Reply.unit := fun _ _ _ => rfl
  have hbool : Function.Injective Reply.bool := fun _ _ h => Reply.bool.inj h
  have hnat : Function.Injective Reply.nat := fun _ _ h => Reply.nat.inj h
  have hint : Function.Injective Reply.int := fun _ _ h => Reply.int.inj h
  have hfloat : Function.Injective Reply.float := fun _ _ h => Reply.float.inj h
  have hvalue : Function.Injective Reply.value := fun _ _ h => Reply.value.inj h
  have hpopped : Function.Injective Reply.popped := fun _ _ h => Reply.popped.inj h
  have hback : ∀ items : List String, popBack items = none ↔ items = [] := fun items => by
    simp [popBack]
  have hfront : ∀ items : List String, popFront items = none ↔ items = [] := fun items => by
    cases items <;> simp [popFront]
  cases op with
  | read r => exact iff_of_true ⟨(read_purge s now r).symm, (purge_visible s now).symm⟩ trivial
  | pfreserve key precision => exact pfreserve_agree_iff precision
  | write w h =>
      cases w with
      | set key value => exact (reply_agree_iff hunit).trans (put_agree_iff rfl)
      | setWithTtl key value ttl =>
          exact (reply_agree_iff hunit).trans (put_agree_iff (checkedAdd_live value ttl))
      | getset key value => exact (reply_agree_iff hvalue).trans (getset_agree_iff value)
      | delete key => exact (ok_agree_iff hvalue rfl rfl).trans delete_agree_iff
      | incr key => exact (reply_agree_iff hint).trans (addToInt_agree_iff 1)
      | decr key => exact (reply_agree_iff hint).trans (addToInt_agree_iff (-1))
      | incrby key amount => exact (reply_agree_iff hint).trans (addToInt_agree_iff amount)
      | append key value => exact (reply_agree_iff hnat).trans (append_agree_iff value)
      | expire key ttl =>
          exact (ok_agree_iff hbool rfl rfl).trans (iff_of_true (expire_agree ttl) trivial)
      | persist key => exact (ok_agree_iff hbool rfl rfl).trans persist_agree_iff
      | pfadd key values => exact (reply_agree_iff hnat).trans (pfadd_agree_iff rt values)
      | pfmerge destination sources => exact (reply_agree_iff hnat).trans pfmerge_agree_iff
      | lpush key values => exact (reply_agree_iff hnat).trans (pushWith_agree_iff _ values)
      | rpush key values => exact (reply_agree_iff hnat).trans (pushWith_agree_iff _ values)
      | lpop key => exact (reply_agree_iff hpopped).trans (popWith_agree_iff hfront)
      | rpop key => exact (reply_agree_iff hpopped).trans (popWith_agree_iff hback)
      | hset key fields => exact (reply_agree_iff hnat).trans (hset_agree_iff fields)
      | hdel key fields => exact (reply_agree_iff hnat).trans (hdel_agree_iff fields)
      | hincrby key field amount =>
          exact (reply_agree_iff hint).trans (addToField_agree_iff _ _ _ _ field amount)
      | hincrbyfloat key field amount =>
          exact (reply_agree_iff hfloat).trans (addToField_agree_iff _ _ _ _ field amount)
      | mset pairs => exact h.elim

/-- A counter at 1 that expired at clock 5. -/
def expiredCounter : KvStore := (new.setWithTtl 3 "c" (.int 1) 2).2

/-- At clock 6 no read shows the counter, and `incr` counts on. -/
theorem incr_finds_expired : (expiredCounter.get 6 "c").isNone = true ∧
    ¬ KeyOp.TakesExpiredAsAbsent .strings expiredCounter 6 (.write (.incr "c") trivial) := by
  refine ⟨by decide +kernel, fun h => ?_⟩
  have hfound : (expiredCounter.incr "c").1.toOption.isSome = true := by decide +kernel
  have hnot : ((expiredCounter.purge 6).incr "c").1.toOption.isSome = false := by decide +kernel
  have hagree : Agree 6 (expiredCounter.incr "c") ((expiredCounter.purge 6).incr "c") :=
    (reply_agree_iff fun _ _ h => Reply.int.inj h).mp h
  rw [hagree.answer, hnot] at hfound
  cases hfound

end KvStore

end Daikon
