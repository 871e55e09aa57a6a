/-
# Daikon.Wal.Keys -- the keys that an entry names and that a call may change

The cells of a call are at the keys that it names, and the calls that replay and recovery make of an entry
name the keys that the entry names.

The names are those in the operation, whether or not the call will be carried out. For MSET they are those
of all its pairs, and for PFMERGE the sources are among them, though they are only read. Whatever is said of
a log key by key goes through these lemmas, from the entry to the call and from the call to its cells.

The lemmas are one per direction: from a cell to the key of its call (`mem_keys_of_mem_cells`), from the raw
reading of an entry to the keys of its operation (`raw_keys`), and the same for the decoded reading, where
an entry that does not decode makes no call at all (`replayed_keys`).
-/
import Daikon.Wal.Interpret

namespace Daikon

/-- The keys that a call names. -/
def Write.keys : Write → List String
  | set key _ | setWithTtl key _ _ | delete key | incr key | decr key | incrby key _ | append key _
  | getset key _ | expire key _ | persist key | pfadd key _ | lpush key _ | rpush key _ | lpop key
  | rpop key | hset key _ | hdel key _ | hincrby key _ _ | hincrbyfloat key _ _ => [key]
  | mset pairs => pairs.map Prod.fst
  | pfmerge destination sources => destination :: sources

/-- The keys that an operation names. -/
def WalOperation.keys : WalOperation → List String
  | set key _ _ | delete key | incr key | decr key | incrBy key _ | append key _ | getSet key _
  | pfAdd key _ | lPush key _ | rPush key _ | lPop key | rPop key | expire key _ | persist key
  | hSet key _ | hDel key _ | hIncrBy key _ _ => [key]
  | mset pairs => pairs.map Prod.fst
  | pfMerge destination sources => destination :: sources

/-- The cells of a call are at its keys. -/
theorem mem_keys_of_mem_cells {rt : Runtime} {cfg : StoreConfig} {inTx : Bool} {now : Nat}
    {w : Write} {c : String × CellOp} (h : c ∈ w.cells rt cfg inTx now) : c.1 ∈ w.keys := by
  cases w with
  | mset pairs =>
      obtain ⟨value, hmem, -⟩ := CellOp.mem_assignAll h
      exact List.mem_map_of_mem (f := Prod.fst) hmem
  | pfadd | pfmerge => cases h
  | _ =>
      rw [List.mem_singleton.mp h]
      exact List.mem_singleton.mpr rfl

namespace WalOperation

/-- Recovery and replicas make the call for the keys that the operation names. -/
theorem raw_keys (op : WalOperation) : op.raw.keys = op.keys := by
  cases op with
  | set key value ttl => cases ttl <;> rfl
  | _ => rfl

theorem decodePairs_keys {rt : Runtime} {pairs : List (String × String)} :
    ∀ {parsed : List (String × Value)}, decodePairs rt pairs = some parsed →
      parsed.map Prod.fst = pairs.map Prod.fst := by
  induction pairs with
  | nil => intro parsed h; cases h; rfl
  | cons pair pairs ih =>
      intro parsed h
      obtain ⟨key, value⟩ := pair
      unfold decodePairs at h
      cases hv : rt.valueFromJson value with
      | none => rw [hv] at h; cases h
      | some v =>
          cases hrest : decodePairs rt pairs with
          | none => rw [hv, hrest] at h; cases h
          | some rest =>
              rw [hv, hrest] at h
              cases h
              rw [List.map_cons, List.map_cons, ih hrest]

/-- So does replay, if it makes one. -/
theorem replayed_keys {rt : Runtime} {op : WalOperation} {w : Write} (h : op.replayed rt = some w) :
    w.keys = op.keys := by
  cases op with
  | set key value ttl =>
      cases ttl <;>
        (obtain ⟨parsed, -, rfl⟩ := Option.map_eq_some_iff.mp h
         rfl)
  | getSet key value =>
      obtain ⟨parsed, -, rfl⟩ := Option.map_eq_some_iff.mp h
      rfl
  | mset pairs =>
      obtain ⟨parsed, hparsed, rfl⟩ := Option.map_eq_some_iff.mp h
      have hkeys : (parsed.map fun p => (p.1, p.2.toString rt)).map Prod.fst = parsed.map Prod.fst := by
        rw [List.map_map]
        rfl
      simp only [Write.keys]
      rw [hkeys, decodePairs_keys hparsed]
      rfl
  | _ =>
      cases h
      rfl

end WalOperation

end Daikon
