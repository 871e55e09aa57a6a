/-
# Daikon.Store.Refine -- the store calls refine their cell operations

While nothing is evicted, a call moves the map from keys to entries by its cell operations and the byte
counter by their cost (`write_refines`). No call changes the limits or opens or closes a transaction
(`write_frame`), so the next call is again the one its cell operations describe: `writes_refine` carries
this through a list of calls.

A list of calls may be run as a list of cell operations as long as there is room for the bytes of the whole
list (`Fits`), and this is a condition that can be computed beforehand from the cells. It is stronger than
asking that no eviction takes place, but only in that the counter never goes down in between: no cell gives
bytes back.

The frame lemmas are separate from the moves and hold without room. They say what no call touches, the
limits and whether a transaction is open, and are used wherever a later call has to be shown to be the one
that its cells describe.
-/
import Daikon.Lib.Lookup
import Daikon.Store.Write

namespace Daikon

open Lib (KeyUpdate)
open Lib.KeyedLog (run cost run_append cost_append)

namespace KvStore

/-! ## What the two recurring updates leave -/

section

variable (s : KvStore) (key : String) (entry : ValueWithTTL)

@[simp] theorem emitKeyspaceEvent_store (now : Nat) (kind : KeyspaceEventKind) :
    (s.emitKeyspaceEvent now kind key).store = s.store := by
  unfold emitKeyspaceEvent; split <;> rfl

@[simp] theorem emitKeyspaceEvent_contents (now : Nat) (kind : KeyspaceEventKind) :
    (s.emitKeyspaceEvent now kind key).contents = s.contents := by
  unfold emitKeyspaceEvent; split <;> rfl

@[simp] theorem emitKeyspaceEvent_stats (now : Nat) (kind : KeyspaceEventKind) :
    (s.emitKeyspaceEvent now kind key).stats = s.stats := by
  unfold emitKeyspaceEvent; split <;> rfl

@[simp] theorem emitKeyspaceEvent_config (now : Nat) (kind : KeyspaceEventKind) :
    (s.emitKeyspaceEvent now kind key).config = s.config := by
  unfold emitKeyspaceEvent; split <;> rfl

@[simp] theorem emitKeyspaceEvent_transactionQueue (now : Nat) (kind : KeyspaceEventKind) :
    (s.emitKeyspaceEvent now kind key).transactionQueue = s.transactionQueue := by
  unfold emitKeyspaceEvent; split <;> rfl

@[simp] theorem insertEntry_config (size : Nat) :
    (s.insertEntry key entry size).config = s.config := rfl

@[simp] theorem insertEntry_transactionQueue (size : Nat) :
    (s.insertEntry key entry size).transactionQueue = s.transactionQueue := rfl

@[simp] theorem insertEntry_store (size : Nat) :
    (s.insertEntry key entry size).store = s.store.insert key entry := rfl

@[simp] theorem insertEntry_memoryBytes (size : Nat) :
    (s.insertEntry key entry size).stats.memoryBytes = s.stats.memoryBytes + size := rfl

@[simp] theorem rewriteEntry_config : (s.rewriteEntry key entry).config = s.config := rfl

@[simp] theorem rewriteEntry_transactionQueue :
    (s.rewriteEntry key entry).transactionQueue = s.transactionQueue := rfl

@[simp] theorem rewriteEntry_store :
    (s.rewriteEntry key entry).store = s.store.insert key entry := rfl

@[simp] theorem rewriteEntry_memoryBytes :
    (s.rewriteEntry key entry).stats.memoryBytes = s.stats.memoryBytes := rfl

end

/-! ## Eviction -/

/-- The bytes may be added without an eviction: there is no cap, or they stay under it. -/
def Fits (s : KvStore) (bytes : Nat) : Prop :=
  s.config.maxMemoryBytes = 0 ∨ s.config.lruEvictionEnabled = false ∨
    s.stats.memoryBytes + bytes ≤ s.config.maxMemoryBytes

instance (s : KvStore) (bytes : Nat) : Decidable (s.Fits bytes) :=
  inferInstanceAs (Decidable (_ ∨ _ ∨ _))

theorem Fits.mono {s : KvStore} {m n : Nat} (h : s.Fits n) (hle : m ≤ n) : s.Fits m := by
  rcases h with h | h | h
  · exact .inl h
  · exact .inr (.inl h)
  · exact .inr (.inr (by omega))

theorem evictHead_lruOrder {s : KvStore} {now : Nat} {lruKey : String} {rest : List String} :
    (s.evictHead now lruKey rest).lruOrder = rest := by
  unfold evictHead
  split <;> rfl

theorem evictHead_config (s : KvStore) (now : Nat) (lruKey : String) (rest : List String) :
    (s.evictHead now lruKey rest).config = s.config := by
  unfold evictHead
  split <;> simp

theorem evictHead_transactionQueue (s : KvStore) (now : Nat) (lruKey : String) (rest : List String) :
    (s.evictHead now lruKey rest).transactionQueue = s.transactionQueue := by
  unfold evictHead
  split <;> simp

section

variable {now : Nat}

/-- The rule for eviction: what holds between a store and itself, carries over from turn to turn and
holds for one turn, holds for the loop. -/
theorem enforceMemoryLimit_induct {R : KvStore → KvStore → Prop} (hrefl : ∀ s, R s s)
    (htrans : ∀ s t u, R s t → R t u → R s u)
    (hturn : ∀ s lruKey rest, s.lruOrder = lruKey :: rest → R s (s.evictHead now lruKey rest))
    (s : KvStore) : R s (s.enforceMemoryLimit now) := by
  have hloop : ∀ (keys : List String) (s : KvStore), s.lruOrder = keys → R s (enforceLoop now keys s) := by
    intro keys
    induction keys with
    | nil => exact fun s _ => hrefl s
    | cons lruKey rest ih =>
        intro s hlru
        unfold enforceLoop
        split
        · exact htrans _ _ _ (hturn s lruKey rest hlru) (ih _ evictHead_lruOrder)
        · exact hrefl s
  unfold enforceMemoryLimit
  split
  · exact hrefl s
  · exact hloop _ s rfl

/-- What no turn changes, the loop does not. -/
theorem enforceMemoryLimit_keeps {α : Type} (f : KvStore → α)
    (hturn : ∀ s lruKey rest, f (s.evictHead now lruKey rest) = f s) (s : KvStore) :
    f (s.enforceMemoryLimit now) = f s :=
  enforceMemoryLimit_induct (R := fun s t => f t = f s) (fun _ => rfl) (fun _ _ _ h h' => h'.trans h)
    (fun s lruKey rest _ => hturn s lruKey rest) s

end

@[simp] theorem enforceMemoryLimit_config (s : KvStore) (now : Nat) :
    (s.enforceMemoryLimit now).config = s.config :=
  enforceMemoryLimit_keeps config (fun s => evictHead_config s now) s

@[simp] theorem enforceMemoryLimit_transactionQueue (s : KvStore) (now : Nat) :
    (s.enforceMemoryLimit now).transactionQueue = s.transactionQueue :=
  enforceMemoryLimit_keeps transactionQueue (fun s => evictHead_transactionQueue s now) s

theorem enforceMemoryLimit_of_le {s : KvStore} {now : Nat}
    (h : s.stats.memoryBytes ≤ s.config.maxMemoryBytes) : s.enforceMemoryLimit now = s := by
  unfold enforceMemoryLimit
  split
  · rfl
  · cases hl : s.lruOrder with
    | nil => rfl
    | cons k rest =>
        unfold enforceLoop
        rw [if_neg (by omega)]

/-! ## The set call -/

theorem validateKey_eq (s : KvStore) (key : String) (h : s.config.ValidKey key) :
    s.validateKey key = .ok () := by
  unfold validateKey
  rw [if_neg h.1, if_neg (by exact Nat.not_lt.mpr h.2)]

theorem validateKey_refused (s : KvStore) (key : String) (h : ¬ s.config.ValidKey key) :
    ∃ e, s.validateKey key = .error e := by
  unfold validateKey
  by_cases hempty : key = ""
  · exact ⟨_, if_pos hempty⟩
  · have hlong : key.utf8ByteSize > s.config.maxKeySize :=
      Nat.lt_of_not_le fun hle => h ⟨hempty, hle⟩
    exact ⟨_, by rw [if_neg hempty, if_pos hlong]⟩

section

variable {s : KvStore} {now : Nat} {key : String} {value : Value} {expiresAt : Option Nat}

/-- A key or a value outside the limits: an error, and nothing changes. -/
theorem setWithExpiry_refused (now : Nat) (expiresAt : Option Nat) (h : ¬ s.config.Valid key value) :
    ∃ e, s.setWithExpiry now key value expiresAt = (.error e, s) := by
  unfold setWithExpiry
  by_cases hk : s.config.ValidKey key
  · rw [validateKey_eq s key hk]
    have hbig : estimateValueSize value > s.config.maxValueSize :=
      Nat.lt_of_not_le fun hle => h ⟨hk, hle⟩
    exact ⟨.valueTooLarge (estimateValueSize value) s.config.maxValueSize,
      by simp only [validateValue, if_pos hbig]⟩
  · obtain ⟨e, he⟩ := validateKey_refused s key hk
    exact ⟨e, by rw [he]⟩

/-- Inside a transaction the pair is queued. -/
theorem setWithExpiry_queued (h : s.config.Valid key value) {queue : List TransactionOp}
    (htx : s.transactionQueue = some queue) :
    s.setWithExpiry now key value expiresAt
      = (.ok (), { s with transactionQueue := some (queue ++ [.set key value expiresAt]) }) := by
  have hsize : ¬ estimateValueSize value > s.config.maxValueSize := Nat.not_lt.mpr h.2
  unfold setWithExpiry
  rw [validateKey_eq s key h.1]
  simp [validateValue, hsize, inTransaction, htx, queueOperation]

/-- A pair that is refused or queued is not put. -/
theorem setWithExpiry_unput (now : Nat) (expiresAt : Option Nat)
    (h : ¬ (s.config.Valid key value ∧ s.transactionQueue = none)) :
    ∃ queue, (s.setWithExpiry now key value expiresAt).2 = { s with transactionQueue := queue } := by
  by_cases hvalid : s.config.Valid key value
  · cases htx : s.transactionQueue with
    | none => exact absurd ⟨hvalid, htx⟩ h
    | some queue =>
        rw [setWithExpiry_queued hvalid htx]
        exact ⟨_, rfl⟩
  · obtain ⟨e, he⟩ := setWithExpiry_refused now expiresAt hvalid
    rw [he]
    exact ⟨s.transactionQueue, rfl⟩

/-- Outside a transaction the entry is put, and eviction follows if it is on. -/
theorem setWithExpiry_put (h : s.config.Valid key value) (htx : s.transactionQueue = none) :
    s.setWithExpiry now key value expiresAt
      = (.ok (), ((if s.config.maxMemoryBytes > 0 ∧ s.config.lruEvictionEnabled then
            (s.insertEntry key ⟨value, expiresAt⟩ (estimateValueSize value)).enforceMemoryLimit now
          else s.insertEntry key ⟨value, expiresAt⟩ (estimateValueSize value)).emitKeyspaceEvent
            now .set key)) := by
  have hsize : ¬ estimateValueSize value > s.config.maxValueSize := Nat.not_lt.mpr h.2
  unfold setWithExpiry
  rw [validateKey_eq s key h.1]
  simp [validateValue, hsize, inTransaction, htx]

/-- With room for the value, nothing is evicted. -/
theorem setWithExpiry_fits (h : s.config.Valid key value) (htx : s.transactionQueue = none)
    (hfits : s.Fits (estimateValueSize value)) :
    s.setWithExpiry now key value expiresAt
      = (.ok (), (s.insertEntry key ⟨value, expiresAt⟩ (estimateValueSize value)).emitKeyspaceEvent
          now .set key) := by
  rw [setWithExpiry_put h htx]
  split
  · next hcap =>
      have hroom : s.stats.memoryBytes + estimateValueSize value ≤ s.config.maxMemoryBytes := by
        rcases hfits with h0 | hoff | hle
        · omega
        · rw [hoff] at hcap
          exact absurd hcap.2 (by simp)
        · exact hle
      rw [enforceMemoryLimit_of_le (by simpa using hroom)]
  · rfl

theorem setWithExpiry_config : (s.setWithExpiry now key value expiresAt).2.config = s.config := by
  by_cases h : s.config.Valid key value
  · cases htx : s.transactionQueue with
    | none =>
        rw [setWithExpiry_put h htx]
        simp only [emitKeyspaceEvent_config]
        split <;> simp
    | some queue => rw [setWithExpiry_queued h htx]
  · obtain ⟨e, he⟩ := setWithExpiry_refused now expiresAt h
    rw [he]

theorem setWithExpiry_inTransaction :
    (s.setWithExpiry now key value expiresAt).2.inTransaction = s.inTransaction := by
  by_cases h : s.config.Valid key value
  · cases htx : s.transactionQueue with
    | none =>
        rw [setWithExpiry_put h htx]
        simp only [inTransaction, emitKeyspaceEvent_transactionQueue]
        split <;> simp
    | some queue =>
        rw [setWithExpiry_queued h htx]
        simp [inTransaction, htx]
  · obtain ⟨e, he⟩ := setWithExpiry_refused now expiresAt h
    rw [he]

end

/-! ## Moving by cell operations -/

theorem contents_insert (s : KvStore) (key : String) (entry : ValueWithTTL) (k : String) :
    (s.store.insert key entry)[k]? = Function.update s.contents key (some entry) k := by
  rw [Lib.Lookup.getElem?_insert, Function.update_apply]
  rfl

theorem contents_erase (s : KvStore) (key k : String) :
    (s.store.erase key)[k]? = Function.update s.contents key none k := by
  rw [Lib.Lookup.getElem?_erase, Function.update_apply]
  rfl

/-- The bytes that cell operations count on this store. -/
def growth (s : KvStore) (cells : List (String × CellOp)) : Nat :=
  cost (entryUpdates cells) s.contents

@[simp] theorem growth_one (s : KvStore) (key : String) (op : CellOp) :
    s.growth [(key, op)] = op.bytes (s.contents key) := rfl

/-- The store moved by these cell operations: entries, byte counter, and nothing of the limits or
the transaction state. -/
structure Moves (s s' : KvStore) (cells : List (String × CellOp)) : Prop where
  contents : s'.contents = run (entryUpdates cells) s.contents
  memory : s'.stats.memoryBytes = s.stats.memoryBytes + s.growth cells
  config : s'.config = s.config
  inTransaction : s'.inTransaction = s.inTransaction

theorem growth_append {s s' : KvStore} {c₁ c₂ : List (String × CellOp)}
    (h : s'.contents = run (entryUpdates c₁) s.contents) :
    s.growth (c₁ ++ c₂) = s.growth c₁ + s'.growth c₂ := by
  simp only [growth, entryUpdates, List.map_append, cost_append]
  rw [h]
  rfl

theorem growth_le_append (s : KvStore) (c₁ c₂ : List (String × CellOp)) :
    s.growth c₁ ≤ s.growth (c₁ ++ c₂) := by
  simp only [growth, entryUpdates, List.map_append, cost_append]
  exact Nat.le_add_right _ _

namespace Moves

variable {s s' s'' : KvStore} {key : String}

theorem refl (s : KvStore) : Moves s s [] := ⟨rfl, rfl, rfl, rfl⟩

theorem trans {c₁ c₂ : List (String × CellOp)} (h₁ : Moves s s' c₁) (h₂ : Moves s' s'' c₂) :
    Moves s s'' (c₁ ++ c₂) where
  contents := by
    simp only [entryUpdates, List.map_append, run_append]
    rw [h₂.contents, h₁.contents]
    rfl
  memory := by
    rw [h₂.memory, h₁.memory, growth_append h₁.contents, Nat.add_assoc]
  config := h₂.config.trans h₁.config
  inTransaction := h₂.inTransaction.trans h₁.inTransaction

/-- What is left of the room after the first part of a move is room for the rest. -/
theorem fits {c₁ c₂ : List (String × CellOp)} (h₁ : Moves s s' c₁)
    (hfits : s.Fits (s.growth (c₁ ++ c₂))) : s'.Fits (s'.growth c₂) := by
  rw [growth_append h₁.contents] at hfits
  unfold Fits at hfits ⊢
  rw [h₁.config, h₁.memory, Nat.add_assoc]
  exact hfits

/-- A change at one key, from what it does to the entries and to the counter. -/
theorem one {op : CellOp}
    (hstore : ∀ k, s'.store[k]? = Function.update s.contents key (op.onEntry (s.contents key)) k)
    (hmem : s'.stats.memoryBytes = s.stats.memoryBytes + op.bytes (s.contents key))
    (hcfg : s'.config = s.config) (htx : s'.inTransaction = s.inTransaction) :
    Moves s s' [(key, op)] where
  contents := funext hstore
  memory := hmem
  config := hcfg
  inTransaction := htx

/-- Nothing moves where the operation has no effect. -/
theorem still {op : CellOp} (hop : op.onEntry (s.contents key) = s.contents key)
    (hbytes : op.bytes (s.contents key) = 0) : Moves s s [(key, op)] := by
  refine one (fun k => ?_) (by rw [hbytes]; rfl) rfl rfl
  rw [hop, Function.update_eq_self]
  rfl

theorem nop (s : KvStore) (key : String) : Moves s s [(key, .nop)] :=
  still (CellOp.onEntry_nop _) (CellOp.bytes_nop _)

/-- An edit of a present entry, written back in place. -/
theorem rewrite {value next : Value} {expiresAt : Option Nat} {f : Value → Value}
    {first : Option Value} (hkey : s.store[key]? = some ⟨value, expiresAt⟩) (hf : f value = next) :
    Moves s (s.rewriteEntry key ⟨next, expiresAt⟩) [(key, .edit f first)] := by
  have hcell : s.contents key = some ⟨value, expiresAt⟩ := hkey
  refine one (fun k => ?_) ?_ rfl rfl
  · rw [rewriteEntry_store, contents_insert, hcell, ← hf]
    rfl
  · rw [hcell]
    cases first <;> rfl

/-- An edit that creates a missing entry, which counts the first value's bytes. -/
theorem insert {f : Value → Value} {first : Value} (hkey : s.store[key]? = none) :
    Moves s (s.insertEntry key ⟨first, none⟩ (estimateValueSize first))
      [(key, .edit f (some first))] := by
  have hcell : s.contents key = none := hkey
  refine one (fun k => ?_) ?_ rfl rfl
  · rw [insertEntry_store, contents_insert, hcell]
    rfl
  · rw [hcell]
    rfl

/-- An edit that leaves the value it finds alone, as a refused call does. -/
theorem refused {value : Value} {expiresAt : Option Nat} {f : Value → Value} {first : Option Value}
    (hkey : s.store[key]? = some ⟨value, expiresAt⟩) (hf : f value = value) :
    Moves s s [(key, .edit f first)] := by
  have hcell : s.contents key = some ⟨value, expiresAt⟩ := hkey
  refine still ?_ ?_
  · rw [hcell]
    simp only [CellOp.onEntry, hf]
  · rw [hcell]
    cases first <;> rfl

/-- An edit of a missing entry that creates none. -/
theorem absent {f : Value → Value} (hkey : s.store[key]? = none) :
    Moves s s [(key, .edit f none)] := by
  have hcell : s.contents key = none := hkey
  refine still ?_ ?_
  · rw [hcell]
    rfl
  · rw [hcell]
    rfl

end Moves

/-! ## Call by call -/

section

variable (s : KvStore) (key : String)

theorem addToInt_moves (amount : Int64) :
    Moves s (s.addToInt key amount).2 [(key, .addInt amount)] := by
  unfold addToInt CellOp.addInt
  cases hkey : s.store[key]? with
  | none => exact Moves.absent hkey
  | some entry =>
      obtain ⟨value, expiresAt⟩ := entry
      cases value with
      | int i => exact Moves.rewrite hkey rfl
      | _ => exact Moves.refused hkey rfl

/-- The put itself moves by the assignment; the eviction after it finds room. -/
theorem setWithExpiry_moves (now : Nat) (value : Value) (expiresAt : Option Nat)
    (hfits : s.Fits (s.growth [(key, .assignIf s.config s.inTransaction key value expiresAt)])) :
    Moves s (s.setWithExpiry now key value expiresAt).2
      [(key, .assignIf s.config s.inTransaction key value expiresAt)] := by
  by_cases hvalid : s.config.Valid key value
  · cases htx : s.transactionQueue with
    | none =>
        have hop : CellOp.assignIf s.config s.inTransaction key value expiresAt
            = .assign value expiresAt := if_pos ⟨hvalid, by simp [inTransaction, htx]⟩
        rw [hop] at hfits ⊢
        rw [setWithExpiry_fits hvalid htx hfits]
        refine Moves.one (fun k => ?_) (by simp [CellOp.bytes]) (by simp) (by simp [inTransaction])
        rw [emitKeyspaceEvent_store, insertEntry_store, contents_insert]
        rfl
    | some queue =>
        have hop : CellOp.assignIf s.config s.inTransaction key value expiresAt = .nop :=
          if_neg fun h => by simp [inTransaction, htx] at h
        rw [hop, setWithExpiry_queued hvalid htx]
        exact Moves.one (fun k => by rw [CellOp.onEntry_nop, Function.update_eq_self]; rfl)
          (by rw [CellOp.bytes_nop]; rfl) rfl (by simp [inTransaction, htx])
  · obtain ⟨e, he⟩ := setWithExpiry_refused now expiresAt hvalid
    have hop : CellOp.assignIf s.config s.inTransaction key value expiresAt = .nop :=
      if_neg fun h => hvalid h.1
    rw [hop, he]
    exact Moves.nop s key

theorem delete_moves (now : Nat) :
    Moves s (s.delete now key).2 [(key, if s.inTransaction then .nop else .remove)] := by
  unfold delete
  by_cases htx : s.inTransaction = true
  · rw [if_pos htx, if_pos htx]
    obtain ⟨queue, hq⟩ := Option.isSome_iff_exists.mp htx
    refine Moves.one (fun k => ?_) ?_ ?_ ?_
    · simp only [queueOperation, hq, CellOp.onEntry_nop, Function.update_eq_self]
      rfl
    · simp only [queueOperation, hq, CellOp.bytes_nop]
      rfl
    · simp only [queueOperation, hq]
    · simp [queueOperation, hq, inTransaction]
  · rw [if_neg htx, if_neg htx]
    cases hkey : s.store[key]? with
    | none =>
        have hcell : s.contents key = none := hkey
        exact Moves.still (by rw [hcell]; rfl) rfl
    | some entry =>
        refine Moves.one (fun k => ?_) (by simp [CellOp.bytes]) (by simp) (by simp [inTransaction])
        simp only [emitKeyspaceEvent_store]
        rw [contents_erase]
        rfl

/-- On a missing key `append` is `set`. -/
theorem append_absent (now : Nat) (value : String) (hkey : s.store[key]? = none) :
    (s.append now key value).2 = (s.set now key (.str value)).2 := by
  unfold append
  rw [hkey]
  simp only
  rcases s.set now key (.str value) with ⟨_ | _, s'⟩ <;> rfl

/-- A present string grows in place, which needs no room. -/
theorem append_present (now : Nat) (value : String) {entry : ValueWithTTL}
    (hkey : s.store[key]? = some entry) :
    Moves s (s.append now key value).2 [(key, .appendStr s.config s.inTransaction key value)] := by
  obtain ⟨old, expiresAt⟩ := entry
  unfold append CellOp.appendStr
  rw [hkey]
  cases old with
  | str old => exact Moves.rewrite hkey rfl
  | _ => exact Moves.refused hkey rfl

theorem append_moves (now : Nat) (value : String)
    (hfits : s.Fits (s.growth [(key, .appendStr s.config s.inTransaction key value)])) :
    Moves s (s.append now key value).2 [(key, .appendStr s.config s.inTransaction key value)] := by
  cases hkey : s.store[key]? with
  | some entry => exact append_present s key now value hkey
  | none =>
      -- on a missing key the edit and the assignment coincide
      have hcell : s.contents key = none := hkey
      have heff : (CellOp.appendStr s.config s.inTransaction key value).onEntry none
          = (CellOp.assignIf s.config s.inTransaction key (.str value) none).onEntry none := by
        unfold CellOp.appendStr CellOp.assignIf
        split <;> rfl
      have hbytes : (CellOp.appendStr s.config s.inTransaction key value).bytes none
          = (CellOp.assignIf s.config s.inTransaction key (.str value) none).bytes none := by
        unfold CellOp.appendStr CellOp.assignIf
        split <;> rfl
      have hset := setWithExpiry_moves s key now (.str value) none (by
        rw [growth_one, hcell] at hfits ⊢
        exact hbytes ▸ hfits)
      rw [append_absent s key now value hkey]
      refine Moves.one (fun k => ?_) ?_ hset.config hset.inTransaction
      · rw [hcell, heff, ← hcell]
        exact congrFun hset.contents k
      · rw [hcell, hbytes, ← hcell]
        exact hset.memory

theorem expire_moves (now ttl : Nat) :
    Moves s (s.expire now key ttl).2
      [(key, .retime fun e => if e.expired now then e.expiresAt else checkedAdd now ttl)] := by
  unfold expire
  split
  · next hkey =>
      have hcell : s.contents key = none := hkey
      exact Moves.still (by rw [hcell]; rfl) rfl
  · next entry hkey =>
      have hcell : s.contents key = some entry := hkey
      by_cases hexp : entry.expired now = true
      · rw [if_pos hexp]
        refine Moves.still ?_ rfl
        rw [hcell]
        simp only [CellOp.onEntry, if_pos hexp]
      · rw [if_neg hexp]
        refine Moves.one (fun k => ?_) (by simp [CellOp.bytes]) (by simp) (by simp [inTransaction])
        simp only [emitKeyspaceEvent_store]
        rw [contents_insert, hcell]
        simp only [CellOp.onEntry, if_neg hexp]

theorem persist_moves (now : Nat) :
    Moves s (s.persist now key).2 [(key, .retime fun _ => none)] := by
  unfold persist
  split
  · next hkey =>
      have hcell : s.contents key = none := hkey
      exact Moves.still (by rw [hcell]; rfl) rfl
  · next entry hkey =>
      have hcell : s.contents key = some entry := hkey
      by_cases hexp : entry.expiresAt.isNone = true
      · rw [if_pos hexp]
        refine Moves.still ?_ rfl
        rw [hcell, CellOp.onEntry, ← Option.isNone_iff_eq_none.mp hexp]
      · rw [if_neg hexp]
        refine Moves.one (fun k => ?_) (by simp [CellOp.bytes]) (by simp) (by simp [inTransaction])
        simp only [emitKeyspaceEvent_store]
        rw [contents_insert, hcell]
        rfl

/-- A call that first checks the key moves by a cell that does, too. -/
theorem Moves.validated {α : Type} {rest : Except KvStoreError α × KvStore} {op : CellOp}
    (h : Moves s rest.2 [(key, op)]) :
    Moves s (match s.validateKey key with
      | .error e => (Except.error e, s)
      | .ok () => rest).2 [(key, if s.config.ValidKey key then op else .nop)] := by
  by_cases hvalid : s.config.ValidKey key
  · rw [validateKey_eq s key hvalid, if_pos hvalid]
    exact h
  · obtain ⟨e, he⟩ := validateKey_refused s key hvalid
    rw [he, if_neg hvalid]
    exact Moves.nop s key

theorem pushWith_moves (push : List String → List String → List String) (values : List String) :
    Moves s (s.pushWith push key values).2 [(key, .pushList s.config push key values)] := by
  unfold pushWith CellOp.pushList
  refine Moves.validated s key ?_
  cases hkey : s.store[key]? with
  | none => exact Moves.insert hkey
  | some entry =>
      obtain ⟨value, expiresAt⟩ := entry
      cases value with
      | list items => exact Moves.rewrite hkey rfl
      | _ => exact Moves.refused hkey rfl

theorem popWith_moves (pop : List String → Option (String × List String)) :
    Moves s (s.popWith pop key).2 [(key, .popList pop)] := by
  unfold popWith CellOp.popList
  cases hkey : s.store[key]? with
  | none => exact Moves.absent hkey
  | some entry =>
      obtain ⟨value, expiresAt⟩ := entry
      cases value with
      | list items =>
          simp only
          cases hpop : pop items with
          | none =>
              refine Moves.refused hkey ?_
              simp only [hpop, Option.elim]
          | some p =>
              refine Moves.rewrite hkey ?_
              simp only [hpop, Option.elim]
      | _ => exact Moves.refused hkey rfl

theorem hset_moves (fields : Fields) :
    Moves s (s.hset key fields).2 [(key, .setFields s.config key fields)] := by
  unfold hset CellOp.setFields
  refine Moves.validated s key ?_
  cases hkey : s.store[key]? with
  | none => exact Moves.insert hkey
  | some entry =>
      obtain ⟨value, expiresAt⟩ := entry
      cases value with
      | hash map => exact Moves.rewrite hkey rfl
      | _ => exact Moves.refused hkey rfl

theorem hdel_moves (fields : List String) :
    Moves s (s.hdel key fields).2 [(key, .deleteFields fields)] := by
  unfold hdel CellOp.deleteFields
  cases hkey : s.store[key]? with
  | none => exact Moves.absent hkey
  | some entry =>
      obtain ⟨value, expiresAt⟩ := entry
      cases value with
      | hash map =>
          have hcell : s.contents key = some ⟨.hash map, expiresAt⟩ := hkey
          refine Moves.one (fun k => ?_) ?_ rfl rfl
          · rw [hcell]
            exact contents_insert s key _ k
          · rw [hcell]
            simp only [updateLru]
            split <;> rfl
      | _ => exact Moves.refused hkey rfl

theorem addToField_moves {N : Type} (parse : String → Option N) (zero : N) (add : N → N → N)
    (show_ : N → String) (field : String) (amount : N) :
    Moves s (s.addToField parse zero add show_ key field amount).2
      [(key, .addField s.config parse zero add show_ key field amount)] := by
  unfold addToField CellOp.addField
  refine Moves.validated s key ?_
  cases hkey : s.store[key]? with
  | none => exact Moves.insert hkey
  | some entry =>
      obtain ⟨value, expiresAt⟩ := entry
      cases value with
      | hash map => exact Moves.rewrite hkey rfl
      | _ => exact Moves.refused hkey rfl

theorem getset_snd (now : Nat) (value : Value) :
    (s.getset now key value).2 = (s.set now key value).2 := by
  unfold getset
  rcases s.set now key value with ⟨_ | _, s'⟩ <;> rfl

end

theorem set_ok {s : KvStore} (now : Nat) {key : String} {value : Value}
    (h : s.config.Valid key value) : (s.set now key value).1 = .ok () := by
  unfold set
  cases htx : s.transactionQueue with
  | none => rw [setWithExpiry_put h htx]
  | some queue => rw [setWithExpiry_queued h htx]

theorem mset_cons_snd (s : KvStore) (now : Nat) (key value : String) (pairs : List (String × String)) :
    (s.mset now ((key, value) :: pairs)).2
      = if s.config.Valid key (.str value) then ((s.set now key (.str value)).2.mset now pairs).2
        else s := by
  rw [mset]
  by_cases hvalid : s.config.Valid key (.str value)
  · have hok := set_ok now hvalid
    rw [if_pos hvalid]
    rcases hs : s.set now key (.str value) with ⟨_ | _, s'⟩
    · rw [hs] at hok; cases hok
    · rfl
  · obtain ⟨e, he⟩ := setWithExpiry_refused now none hvalid
    rw [if_neg hvalid, set, he]

/-- `mset` succeeds exactly if no pair is refused. -/
theorem mset_ok_iff (now : Nat) (pairs : List (String × String)) :
    ∀ s : KvStore, (∃ u, (s.mset now pairs).1 = .ok u) ↔
      ∀ p ∈ pairs, s.config.Valid p.1 (.str p.2) := by
  induction pairs with
  | nil => intro s; simp [mset]
  | cons pair pairs ih =>
      intro s
      obtain ⟨key, value⟩ := pair
      by_cases hvalid : s.config.Valid key (.str value)
      · have hok := set_ok now hvalid
        have hcfg : (s.set now key (.str value)).2.config = s.config := setWithExpiry_config
        rw [mset]
        rcases hs : s.set now key (.str value) with ⟨_ | _, s'⟩
        · rw [hs] at hok; cases hok
        · have hcfg' : s'.config = s.config := by rw [← hcfg, hs]
          simp only [ih s', hcfg']
          simp [hvalid]
      · obtain ⟨e, he⟩ := setWithExpiry_refused now none hvalid
        rw [mset, set, he]
        simp [hvalid]

/-- The loop over the pairs: each valid pair is put, the first other one ends it. -/
theorem mset_moves (now : Nat) (pairs : List (String × String)) :
    ∀ s : KvStore, s.Fits (s.growth (CellOp.assignAll s.config s.inTransaction pairs)) →
      Moves s (s.mset now pairs).2 (CellOp.assignAll s.config s.inTransaction pairs) := by
  induction pairs with
  | nil => intro s _; exact Moves.refl s
  | cons pair pairs ih =>
      intro s hfits
      obtain ⟨key, value⟩ := pair
      rw [mset_cons_snd]
      unfold CellOp.assignAll at hfits ⊢
      by_cases hvalid : s.config.Valid key (.str value)
      · rw [if_pos hvalid, ← List.singleton_append] at hfits ⊢
        rw [if_pos hvalid]
        have hfirst : Moves s (s.set now key (.str value)).2 _ :=
          setWithExpiry_moves s key now (.str value) none (hfits.mono (growth_le_append s _ _))
        refine hfirst.trans ?_
        have hrest := ih (s.set now key (.str value)).2
        rw [hfirst.config, hfirst.inTransaction] at hrest
        exact hrest (hfirst.fits hfits)
      · rw [if_neg hvalid, if_neg hvalid]
        exact Moves.refl s

/-! ## Any keyed call, and lists of calls -/

/-- The calls on one key that need no room: they never evict. -/
def Roomless : Write → Prop
  | .set .. | .setWithTtl .. | .append .. | .getset .. | .mset .. | .pfadd .. | .pfmerge .. => False
  | _ => True

/-- A call that needs no room moves the store by its cell operation. -/
theorem write_moves (rt : Runtime) (s : KvStore) (now : Nat) {w : Write} (hw : Roomless w) :
    Moves s (s.write rt now w).2 (w.cells rt s.config s.inTransaction now) := by
  cases w with
  | delete key => exact delete_moves s key now
  | incr key => exact addToInt_moves s key 1
  | decr key => exact addToInt_moves s key (-1)
  | incrby key amount => exact addToInt_moves s key amount
  | expire key ttl => exact expire_moves s key now ttl
  | persist key => exact persist_moves s key now
  | lpush key values => exact pushWith_moves s key pushFront values
  | rpush key values => exact pushWith_moves s key (· ++ ·) values
  | lpop key => exact popWith_moves s key popFront
  | rpop key => exact popWith_moves s key popBack
  | hset key fields => exact hset_moves s key fields
  | hdel key fields => exact hdel_moves s key fields
  | hincrby key field amount => exact addToField_moves s key parseI64 0 (· + ·) toString field amount
  | hincrbyfloat key field amount =>
      exact addToField_moves s key rt.f64Parse 0.0 (· + ·) rt.f64ToString field amount
  | _ => exact hw.elim

/-- A keyed call with room for what it adds moves the store by its cell operations. -/
theorem write_refines (rt : Runtime) (s : KvStore) (now : Nat) {w : Write} (hw : w.Keyed)
    (hfits : s.Fits (s.growth (w.cells rt s.config s.inTransaction now))) :
    Moves s (s.write rt now w).2 (w.cells rt s.config s.inTransaction now) := by
  cases w with
  | set key value => exact setWithExpiry_moves s key now value none hfits
  | setWithTtl key value ttl => exact setWithExpiry_moves s key now value _ hfits
  | append key value => exact append_moves s key now value hfits
  | getset key value =>
      have hset := setWithExpiry_moves s key now value none hfits
      exact ((getset_snd s key now value).symm ▸ hset :)
  | mset pairs => exact mset_moves now pairs s hfits
  | pfadd key values => exact hw.elim
  | pfmerge destination sources => exact hw.elim
  | _ => exact write_moves rt s now trivial

/-! ## What no call changes -/

theorem Moves.frame {s s' : KvStore} {cells : List (String × CellOp)} (h : Moves s s' cells) :
    s'.config = s.config ∧ s'.inTransaction = s.inTransaction := ⟨h.config, h.inTransaction⟩

theorem append_frame (s : KvStore) (now : Nat) (key value : String) :
    (s.append now key value).2.config = s.config ∧
      (s.append now key value).2.inTransaction = s.inTransaction := by
  cases hkey : s.store[key]? with
  | none =>
      rw [append_absent s key now value hkey]
      exact ⟨setWithExpiry_config, setWithExpiry_inTransaction⟩
  | some entry =>
      obtain ⟨old, expiresAt⟩ := entry
      unfold append
      rw [hkey]
      cases old <;> exact ⟨rfl, rfl⟩

theorem mset_frame (now : Nat) (pairs : List (String × String)) :
    ∀ s : KvStore, (s.mset now pairs).2.config = s.config ∧
      (s.mset now pairs).2.inTransaction = s.inTransaction := by
  induction pairs with
  | nil => intro s; exact ⟨rfl, rfl⟩
  | cons pair pairs ih =>
      intro s
      obtain ⟨key, value⟩ := pair
      rw [mset_cons_snd]
      split
      · obtain ⟨hcfg, htx⟩ := ih (s.set now key (.str value)).2
        exact ⟨hcfg.trans setWithExpiry_config, htx.trans setWithExpiry_inTransaction⟩
      · exact ⟨rfl, rfl⟩

/-- The store is as it was, or one entry was put: in place of one at the key, without its expiry or
with it, or as a new one. -/
inductive PutsAt (s : KvStore) (key : String) : KvStore → Prop
  | nothing : PutsAt s key s
  | rewrite (entry : ValueWithTTL)
      (h : entry.expiresAt = none ∨
        entry.expiresAt = (s.contents key).bind ValueWithTTL.expiresAt) :
      PutsAt s key (s.rewriteEntry key entry)
  | insert (value : Value) (size : Nat) : PutsAt s key (s.insertEntry key ⟨value, none⟩ size)

theorem pfadd_puts (s : KvStore) (rt : Runtime) (key : String) (values : List String) :
    PutsAt s key (s.pfadd rt key values).2 := by
  unfold pfadd
  split
  · exact .nothing
  · split
    · exact .nothing
    · simp only
      split
      · next hll expiresAt hkey =>
          refine .rewrite _ (.inr ?_)
          simp only [contents, hkey, Option.bind_some]
      · exact .nothing
      · exact .insert _ _

theorem pfmerge_puts (s : KvStore) (destination : String) (sources : List String) :
    PutsAt s destination (s.pfmerge destination sources).2 := by
  unfold pfmerge
  split
  · exact .nothing
  · split
    · exact .nothing
    · simp only
      split
      · exact .nothing
      · split
        · exact .rewrite _ (.inl rfl)
        · exact .insert _ _

theorem PutsAt.frame {s s' : KvStore} {key : String} (h : PutsAt s key s') :
    s'.config = s.config ∧ s'.inTransaction = s.inTransaction := by
  cases h <;> exact ⟨rfl, rfl⟩

/-- Other keys keep their entries. -/
theorem PutsAt.contents_of_ne {s s' : KvStore} {key k : String} (h : PutsAt s key s')
    (hk : k ≠ key) : s'.contents k = s.contents k := by
  have hput : ∀ entry, (s.store.insert key entry)[k]? = s.contents k := fun entry => by
    rw [contents_insert, Function.update_of_ne hk]
  cases h with
  | nothing => rfl
  | rewrite entry _ => exact hput entry
  | insert value size => exact hput ⟨value, none⟩

/-- No call changes the limits or opens or closes a transaction. -/
theorem write_frame (rt : Runtime) (s : KvStore) (now : Nat) (w : Write) :
    (s.write rt now w).2.config = s.config ∧
      (s.write rt now w).2.inTransaction = s.inTransaction := by
  cases w with
  | set key value => exact ⟨setWithExpiry_config, setWithExpiry_inTransaction⟩
  | setWithTtl key value ttl => exact ⟨setWithExpiry_config, setWithExpiry_inTransaction⟩
  | append key value => exact append_frame s now key value
  | getset key value =>
      rw [show (s.write rt now (.getset key value)).2 = _ from getset_snd s key now value]
      exact ⟨setWithExpiry_config, setWithExpiry_inTransaction⟩
  | mset pairs => exact mset_frame now pairs s
  | pfadd key values => exact (pfadd_puts s rt key values).frame
  | pfmerge destination sources => exact (pfmerge_puts s destination sources).frame
  | _ => exact Moves.frame (write_moves rt s now trivial)

@[simp] theorem write_config (rt : Runtime) (s : KvStore) (now : Nat) (w : Write) :
    (s.write rt now w).2.config = s.config := (write_frame rt s now w).1

@[simp] theorem write_inTransaction (rt : Runtime) (s : KvStore) (now : Nat) (w : Write) :
    (s.write rt now w).2.inTransaction = s.inTransaction := (write_frame rt s now w).2

/-! ## Lists of calls -/

/-- The store after a list of calls, each with its clock. -/
def writes (rt : Runtime) (s : KvStore) (calls : List (Nat × Write)) : KvStore :=
  calls.foldl (fun s c => (s.write rt c.1 c.2).2) s

@[simp] theorem writes_nil (rt : Runtime) (s : KvStore) : s.writes rt [] = s := rfl

@[simp] theorem writes_cons (rt : Runtime) (s : KvStore) (c : Nat × Write) (calls : List (Nat × Write)) :
    s.writes rt (c :: calls) = (s.write rt c.1 c.2).2.writes rt calls := rfl

theorem writes_append (rt : Runtime) (s : KvStore) (c₁ c₂ : List (Nat × Write)) :
    s.writes rt (c₁ ++ c₂) = (s.writes rt c₁).writes rt c₂ := List.foldl_append

/-- The cell operations of a list of calls. -/
def allCells (rt : Runtime) (cfg : StoreConfig) (inTx : Bool) (calls : List (Nat × Write)) :
    List (String × CellOp) :=
  calls.flatMap fun c => c.2.cells rt cfg inTx c.1

/-- With room for all they add, the calls move the store by all their cell operations. -/
theorem writes_refine (rt : Runtime) (calls : List (Nat × Write)) :
    ∀ s : KvStore, (∀ c ∈ calls, c.2.Keyed) →
      s.Fits (s.growth (allCells rt s.config s.inTransaction calls)) →
      Moves s (s.writes rt calls) (allCells rt s.config s.inTransaction calls) := by
  induction calls with
  | nil => intro s _ _; exact Moves.refl s
  | cons c calls ih =>
      intro s hkeyed hfits
      simp only [allCells, List.flatMap_cons] at hfits ⊢
      have hfirst := write_refines rt s c.1 (hkeyed c (by simp))
        (hfits.mono (growth_le_append s _ _))
      have hrest := ih (s.write rt c.1 c.2).2 fun d hd => hkeyed d (List.mem_cons_of_mem _ hd)
      rw [hfirst.config, hfirst.inTransaction] at hrest
      exact hfirst.trans (hrest (hfirst.fits hfits))

/-! ## Values only -/

/-- Forgetting expiry, cell operations act on the map of values. -/
theorem run_values (cells : List (String × CellOp)) :
    ∀ c : String → Option ValueWithTTL,
      (fun k => (run (entryUpdates cells) c k).map ValueWithTTL.value)
        = run (valueUpdates cells) (fun k => (c k).map ValueWithTTL.value) := by
  induction cells with
  | nil => intro c; rfl
  | cons cell cells ih =>
      intro c
      have hone : (fun k => (Lib.KeyedLog.apply c ⟨cell.1, cell.2.onEntry, cell.2.bytes⟩ k).map
            ValueWithTTL.value)
          = Lib.KeyedLog.apply (fun k => (c k).map ValueWithTTL.value)
              ⟨cell.1, cell.2.onValue, fun _ => 0⟩ := by
        funext k
        simp only [Lib.KeyedLog.apply]
        by_cases hk : k = cell.1
        · subst hk
          simp only [Function.update_self, CellOp.onEntry_value]
        · simp only [Function.update_of_ne hk]
      simp only [entryUpdates, valueUpdates, List.map_cons, Lib.KeyedLog.run_cons] at ih ⊢
      rw [ih, hone]

theorem Moves.values {s s' : KvStore} {cells : List (String × CellOp)} (h : Moves s s' cells) :
    s'.values = run (valueUpdates cells) s.values := by
  rw [show s'.values = fun k => (s'.contents k).map ValueWithTTL.value from rfl, h.contents]
  exact run_values cells s.contents

end KvStore

end Daikon
