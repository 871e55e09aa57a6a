/-
# Daikon.Store.Uses -- eviction in the order of last use

A read takes the store by shared reference and cannot move its key in the recency list, nor does a change
of an expiry, a pop of an empty list or a merge move what it looks at. As long as such uses leave the order
of last use of the stored keys as it was, the list is in that order (`access_inv`), and every eviction
spares only keys that were used after those that it takes (`evicts_in_order`).

A history of uses is kept beside the run (`run`), with every key that an access reads, looks at or writes.
The list of the store is compared with it by `Lib.Recency`. The condition `KeepsOrder` is asked of each
access: what it uses without moving it is used again in its old place, so nothing may have been used since
by which the order would differ. A read of the key that was used last is the typical case that does no harm
(`keepsOrder_of_latest`).

The two runs at the end differ in the key that is read. In one of them the read is of the latest key and the
eviction is the right one; in the other it is of the oldest, and that key goes.
-/
import Daikon.Lib.Recency
import Daikon.Store.Prefix
import Daikon.Store.Reads

namespace Daikon

open Lib.Recency (MoreRecent Ordered)
open Lib.Run (Guarded)

/-- What is done to a store: a read, or a call of a method that changes it. -/
inductive Access where
  | read (now : Nat) (r : Read)
  | call (now : Nat) (m : Method)

/-- The keys that a read names. -/
def Read.names : Read → List String
  | get key | getString key | getI64 key | getF64 key | getBool key | exists_ key => [key]
  | ttlSeconds key | pttlMillis key | pfcount key | hllInfo key => [key]
  | lrange key _ _ | llen key => [key]
  | hget key _ | hmget key _ | hgetall key | hkeys key | hvals key | hlen key | hexists key _ => [key]
  | mget ks | existsMany ks => ks
  | keys _ => []

/-- The keys that a call looks at or changes without a put. -/
def Write.looks (s : KvStore) (now : Nat) : Write → List String
  | expire key ttl => KvStore.keyIf ((s.expire now key ttl).1 = true) key
  | persist key => KvStore.keyIf ((s.persist now key).1 = true) key
  | lpop key | rpop key => KvStore.keyIf (s.values key = some (.list [])) key
  | pfmerge destination sources =>
      if (s.pfmerge destination sources).1.isOk then
        sources.filter fun k => k ≠ destination ∧ (s.contents k).isSome
      else []
  | _ => []

/-- The keys that a method puts. -/
def Method.puts (s : KvStore) : Method → List String
  | write w => w.puts s
  | pfreserve key _ => KvStore.keyIf (s.config.ValidKey key ∧ s.contents key = none) key
  | exec =>
      ((s.transactionQueue.getD []).filter fun op => op ≠ .delete op.cell.1).map fun op => op.cell.1
  | _ => []

namespace Access

/-- The keys that are used without being moved in the list. A read uses those that it finds. -/
def looks (s : KvStore) : Access → List String
  | read now r => r.names.filter fun k => (s.get now k).isSome
  | call now (.write w) => w.looks s now
  | call _ _ => []

/-- The keys that are written. -/
def puts (s : KvStore) : Access → List String
  | read _ _ => []
  | call _ m => m.puts s

/-- The keys that are used, in order. -/
def uses (s : KvStore) (a : Access) : List String := a.looks s ++ a.puts s

/-- The store and the history of its uses after one access more. -/
def run (rt : Runtime) (u : KvStore × List String) (a : Access) : KvStore × List String :=
  (match a with
    | read _ _ => u.1
    | call now m => u.1.call rt (now, m), u.2 ++ a.uses u.1)

/-- Uses that move nothing in the list change nothing in the order of last use either. -/
def KeepsOrder (u : KvStore × List String) (a : Access) : Prop :=
  ∀ k l, k ∈ u.1.store → l ∈ u.1.store → k ∉ a.puts u.1 → l ∉ a.puts u.1 →
    MoreRecent u.2 l k → MoreRecent (u.2 ++ a.looks u.1) l k

end Access

namespace KvStore

/-! ## What is asked of an eviction -/

/-- A put that is carried out takes out no key that was used after one that it spares. -/
def PutInOrder (s : KvStore) (h : List String) (now : Nat) (key : String) (value : Value)
    (expiresAt : Option Nat) : Prop :=
  s.config.Valid key value → s.transactionQueue = none → ∀ e k, e = key ∨ s.contents e ≠ none →
    (s.setWithExpiry now key value expiresAt).2.contents e = none →
    (s.setWithExpiry now key value expiresAt).2.contents k ≠ none → MoreRecent (h ++ [key]) k e

/-- The puts of `mset`, each in the store that those before it leave. -/
def MsetInOrder (now : Nat) : List (String × String) → KvStore → List String → Prop
  | [], _, _ => True
  | (key, value) :: pairs, s, h =>
      s.PutInOrder h now key (.str value) none ∧ (s.config.Valid key (.str value) →
        MsetInOrder now pairs (s.set now key (.str value)).2 (h ++ s.putKey key (.str value)))

/-- Every put of the call evicts in order. -/
def WriteInOrder (s : KvStore) (h : List String) (now : Nat) : Write → Prop
  | .set key value | .getset key value => s.PutInOrder h now key value none
  | .setWithTtl key value ttl => s.PutInOrder h now key value (checkedAdd now ttl)
  -- a missing key is appended to by setting it
  | .append key value => s.contents key = none → s.PutInOrder h now key (.str value) none
  | .mset pairs => MsetInOrder now pairs s h
  | _ => True

/-- Every put of the access evicts in order. -/
def InOrder (u : KvStore × List String) : Access → Prop
  | .call now (.write w) => u.1.WriteInOrder u.2 now w
  | _ => True

/-! ## The list is in the order of last use -/

/-- The recency list has every stored key, once, in the order of last use. -/
structure InUseOrder (s : KvStore) (h : List String) : Prop where
  nodup : s.lruOrder.Nodup
  listed : s.Listed
  ordered : Ordered (· ∈ s.store) h s.lruOrder

/-- What is put is used, and what is evicted leaves the order of the rest. -/
theorem Records.ordered {s s' : KvStore} {us : List String} (hrec : Records s us s') :
    ∀ {Q : String → Prop} {h : List String},
      Ordered (fun k => k ∈ s.store ∧ k ∉ us ∧ Q k) h s.lruOrder →
        Ordered (fun k => k ∈ s'.store ∧ Q k) (h ++ us) s'.lruOrder := by
  induction hrec with
  | same hlru hkeys =>
      intro Q h hl
      rw [hlru, List.append_nil]
      exact hl.mono fun k hk => ⟨(hkeys k).mp hk.1, List.not_mem_nil, hk.2⟩
  | put hstore hlru =>
      intro Q h hl
      rw [hlru]
      refine hl.touch fun k hk hQ => ?_
      rw [hstore, mem_insert_iff] at hQ
      exact ⟨hQ.1.resolve_left hk, fun hin => hk (List.mem_singleton.mp hin), hQ.2⟩
  | @evict s s' lruKey hlru hkeys =>
      intro Q h hl
      rw [hlru] at hl
      rw [List.append_nil]
      exact (hl.sublist (List.sublist_cons_self _ _)).mono fun k hk =>
        ⟨((hkeys k).mp hk.1).2, List.not_mem_nil, hk.2⟩
  | @trans s t u us us' _ _ ih ih' =>
      intro Q h hl
      rw [← List.append_assoc]
      refine ih' (Q := Q) ((ih (Q := fun k => k ∉ us' ∧ Q k) (hl.mono fun k hk => ?_)).mono fun k hk => hk)
      refine ⟨hk.1, fun hin => ?_, hk.2.2.2⟩
      rcases List.mem_append.mp hin with hin | hin
      · exact hk.2.1 hin
      · exact hk.2.2.1 hin

theorem InUseOrder.records {s s' : KvStore} {h us looked : List String} (hs : s.InUseOrder h)
    (hrec : Records s us s') (hlisted : s'.Listed)
    (hkeeps : ∀ k l, k ∈ s.store → l ∈ s.store → k ∉ us → l ∉ us →
      MoreRecent h l k → MoreRecent (h ++ looked) l k) : s'.InUseOrder (h ++ (looked ++ us)) := by
  have hlooked : Ordered (fun k => k ∈ s.store ∧ k ∉ us ∧ True) (h ++ looked) s.lruOrder :=
    (hs.ordered.mono fun k hk => hk.1).use fun k l hk hl => hkeeps k l hk.1 hl.1 hk.2.1 hl.2.1
  refine ⟨(hrec.keeps hs.nodup).1, hlisted, ?_⟩
  rw [← List.append_assoc]
  exact (hrec.ordered hlooked).mono fun k hk => ⟨hk, trivial⟩

theorem InUseOrder.recorded {s s' : KvStore} {h us : List String} (hs : s.InUseOrder h)
    (hrec : Records s us s') (hlisted : s'.Listed) : s'.InUseOrder (h ++ us) := by
  have hnone : s'.InUseOrder (h ++ ([] ++ us)) :=
    hs.records hrec hlisted fun k l _ _ _ _ hkl => by rwa [List.append_nil]
  exact hnone

/-- Removals that leave the list alone leave it in order. -/
theorem InUseOrder.removal {s s' : KvStore} {h : List String} (hs : s.InUseOrder h)
    (hlru : s'.lruOrder = s.lruOrder) (hkeys : ∀ k, k ∈ s'.store → k ∈ s.store) : s'.InUseOrder h := by
  refine ⟨hlru ▸ hs.nodup, fun k hk => ?_, ?_⟩
  · rw [hlru]
    exact hs.listed k (hkeys k hk)
  · rw [hlru]
    exact hs.ordered.mono hkeys

/-! ## Puts -/

/-- From a list in the order of last use, eviction spares only keys used after those it takes. -/
theorem InUseOrder.evicts {s : KvStore} {h : List String} (hs : s.InUseOrder h)
    (hcap : 0 < s.config.maxMemoryBytes) {now : Nat} {e k : String} (hstored : s.contents e ≠ none)
    (hgone : (s.enforceMemoryLimit now).contents e = none)
    (hkept : (s.enforceMemoryLimit now).contents k ≠ none) : MoreRecent h k e := by
  obtain ⟨n, -, htaken, -, -⟩ := evictsShortest_of_nodup now hcap hs.nodup hs.listed
  rw [htaken.contents] at hgone hkept
  have hin : e ∈ s.lruOrder.take n := by
    by_contra hout
    exact hstored (by rwa [if_neg hout] at hgone)
  have hout : k ∉ s.lruOrder.take n := fun hin => hkept (if_pos hin)
  rw [if_neg hout] at hkept
  have hlisted := hs.listed k (mem_store_iff.mpr hkept)
  have hordered := hs.ordered
  rw [← List.take_append_drop n s.lruOrder] at hlisted hordered
  exact hordered.behind hin ((List.mem_append.mp hlisted).resolve_left hout)
    (mem_store_iff.mpr hstored) (mem_store_iff.mpr hkept)

theorem InUseOrder.insertEntry {s : KvStore} {h : List String} (hs : s.InUseOrder h) (key : String)
    (entry : ValueWithTTL) (size : Nat) : (s.insertEntry key entry size).InUseOrder (h ++ [key]) :=
  hs.recorded (.put rfl rfl) (hs.listed.of_put rfl rfl)

/-- A put evicts in the order of last use, its own key being the latest. -/
theorem InUseOrder.putInOrder {s : KvStore} {h : List String} (hs : s.InUseOrder h) (now : Nat)
    (key : String) (value : Value) (expiresAt : Option Nat) : s.PutInOrder h now key value expiresAt := by
  intro hvalid htx e k he hgone hkept
  have hstored : (s.insertEntry key ⟨value, expiresAt⟩ (estimateValueSize value)).contents e ≠ none := by
    rw [show (s.insertEntry key ⟨value, expiresAt⟩ (estimateValueSize value)).contents e = _ from
      contents_insert s key _ e]
    by_cases hkey : e = key
    · simp [hkey]
    · rw [Function.update_of_ne hkey]
      exact he.resolve_left hkey
  rw [setWithExpiry_put hvalid htx, emitKeyspaceEvent_contents] at hgone hkept
  split at hgone
  · next hcapped =>
      rw [if_pos hcapped] at hkept
      exact (hs.insertEntry key ⟨value, expiresAt⟩ _).evicts hcapped.1 hstored hgone hkept
  · exact absurd hgone hstored

theorem InUseOrder.set {s : KvStore} {h : List String} (hs : s.InUseOrder h) (now : Nat) (key : String)
    (value : Value) (expiresAt : Option Nat) :
    (s.setWithExpiry now key value expiresAt).2.InUseOrder (h ++ s.putKey key value) :=
  hs.recorded (setWithExpiry_records s now key value expiresAt)
    (setWithExpiry_listed hs.listed now key value expiresAt)

theorem mset_inOrder (now : Nat) (pairs : List (String × String)) :
    ∀ {s : KvStore} {h : List String}, s.InUseOrder h → MsetInOrder now pairs s h := by
  induction pairs with
  | nil => exact fun _ => trivial
  | cons pair pairs ih =>
      intro s h hs
      exact ⟨hs.putInOrder now pair.1 (.str pair.2) none, fun _ => ih (hs.set now pair.1 _ none)⟩

theorem InUseOrder.writeInOrder {s : KvStore} {h : List String} (hs : s.InUseOrder h) (now : Nat)
    (w : Write) : s.WriteInOrder h now w := by
  cases w with
  | set key value | getset key value => exact hs.putInOrder now key value none
  | setWithTtl key value ttl => exact hs.putInOrder now key value _
  | append key value => exact fun _ => hs.putInOrder now key _ none
  | mset pairs => exact mset_inOrder now pairs hs
  | _ => trivial

/-! ## Every access, and every run -/

/-- All that is queued on a key but its delete puts the key. -/
theorem execOp_records (s : KvStore) {op : TransactionOp} (h : op ≠ .delete op.cell.1) :
    Records s [op.cell.1] (s.execOp op).2 := by
  cases op with
  | set key value expiresAt => exact .put rfl rfl
  | delete key => exact absurd rfl h
  | incr key | decr key | incrBy key amount =>
      simp only [execOp, execAdd]
      split <;> exact .put rfl rfl
  | append key value =>
      simp only [execOp]
      split <;> exact .put rfl rfl

theorem execOps_inUseOrder (ops : List TransactionOp) : ∀ {s : KvStore} {h : List String},
    s.InUseOrder h → (execOps s ops).2.InUseOrder
      (h ++ (ops.filter fun op => op ≠ .delete op.cell.1).map fun op => op.cell.1) := by
  induction ops with
  | nil =>
      intro s h hs
      rwa [List.filter_nil, List.map_nil, List.append_nil]
  | cons op ops ih =>
      intro s h hs
      rw [execOps]
      by_cases hdelete : op = .delete op.cell.1
      · rw [List.filter_cons_of_neg (by simpa using hdelete)]
        refine ih (hs.removal ?_ fun k hk => ?_)
        · rw [execOp_lruOrder, if_pos hdelete]
        · rw [hdelete] at hk
          exact (mem_erase_iff.mp hk).2
      · rw [List.filter_cons_of_pos (by simpa using hdelete), List.map_cons, List.append_cons]
        exact ih (hs.recorded (execOp_records s hdelete) (execOps_listed [op] hs.listed))

theorem exec_inUseOrder {s : KvStore} {h : List String} (hs : s.InUseOrder h) :
    s.exec.2.InUseOrder (h ++ Method.exec.puts s) := by
  unfold exec Method.puts
  cases htx : s.transactionQueue with
  | none => rwa [Option.getD_none, List.filter_nil, List.map_nil, List.append_nil]
  | some queue =>
      have hopen : ({ s with transactionQueue := none } : KvStore).InUseOrder h :=
        hs.removal rfl fun k hk => hk
      exact execOps_inUseOrder queue hopen

theorem mem_delete {s : KvStore} {now : Nat} {key k : String} (hk : k ∈ (s.delete now key).2.store) :
    k ∈ s.store := by
  unfold delete queueOperation at hk
  split at hk
  · split at hk <;> exact hk
  · split at hk
    · rw [emitKeyspaceEvent_store] at hk
      exact (mem_erase_iff.mp hk).2
    · exact hk

theorem mem_cleanupExpired {s : KvStore} {now : Nat} {k : String}
    (hk : k ∈ (s.cleanupExpired now).2.store) : k ∈ s.store := by
  rw [mem_store_iff, cleanupExpired_contents] at hk
  rw [mem_store_iff]
  intro hnone
  apply hk
  show (if k ∈ s.dueKeys now then none else s.contents k) = none
  rw [hnone, ite_self]

/-- A call that uses no key. -/
theorem InUseOrder.unused {s s' : KvStore} {h : List String} (hs : s.InUseOrder h)
    (hlru : s'.lruOrder = s.lruOrder) (hkeys : ∀ k, k ∈ s'.store → k ∈ s.store) :
    s'.InUseOrder (h ++ ([] ++ [])) := by
  rw [List.append_nil, List.append_nil]
  exact hs.removal hlru hkeys

/-- The step lemma: an access leaves the list in the order of last use, if what it uses without moving
it changes nothing in that order. -/
theorem access_inUseOrder (rt : Runtime) {u : KvStore × List String} (a : Access)
    (hu : u.1.InUseOrder u.2) (hkeeps : a.KeepsOrder u) :
    (a.run rt u).1.InUseOrder (a.run rt u).2 := by
  obtain ⟨s, h⟩ := u
  change s.InUseOrder h at hu
  cases a with
  | read now r => exact hu.records (.refl s) hu.listed hkeeps
  | call now m =>
      have hlisted := call_listed rt (now, m) hu.listed
      show (s.call rt (now, m)).InUseOrder (h ++ ((Access.call now m).looks s ++ m.puts s))
      have hqueue : ∀ m : Method, m.Queues → (s.call rt (now, m)).InUseOrder (h ++ ([] ++ [])) := by
        intro m hm
        obtain ⟨queue, hcall⟩ := call_queues rt s now hm
        rw [hcall]
        exact hu.unused rfl fun k hk => hk
      cases m with
      | write w =>
          have hrec := @write_records rt s now w
          cases w with
          | delete key => exact hu.unused (delete_lruOrder s now key) fun k => mem_delete
          | _ => exact hu.records (hrec (by simp)) hlisted hkeeps
      | pfreserve key precision => exact hu.records (pfreserve_records precision) hlisted hkeeps
      | cleanupExpired => exact hu.unused (cleanupExpired_lruOrder s now) fun k => mem_cleanupExpired
      | exec => exact exec_inUseOrder hu
      | multi | discard | queueOperation op => exact hqueue _ trivial
      | drainKeyspaceEvents | resetStats | setConfig config | setKeyspaceNotificationsEnabled enabled =>
          exact hu.unused rfl fun k hk => hk

/-- On every run from an empty store: as long as each use that moves nothing in the list changes nothing
in the order of last use of the stored keys, every key that an eviction spares was used after every key
that it takes. -/
theorem evicts_in_order (rt : Runtime) (config : StoreConfig) (as : List Access)
    (hkeeps : Guarded (Access.run rt) Access.KeepsOrder (withConfig config, []) as) :
    Guarded (Access.run rt) InOrder (withConfig config, []) as := by
  have hstart : (withConfig config).InUseOrder [] :=
    ⟨List.Pairwise.nil, withConfig_listed config, List.Pairwise.nil⟩
  have hinOrder : ∀ u a, u.1.InUseOrder u.2 → Access.KeepsOrder u a → InOrder u a := by
    intro u a hu _
    cases a with
    | read now r => trivial
    | call now m =>
        cases m with
        | write w => exact hu.writeInOrder now w
        | _ => trivial
  exact hkeeps.imp (fun u a hu ha => access_inUseOrder rt a hu ha) hinOrder hstart

theorem keepsOrder_of_unlooked {u : KvStore × List String} {a : Access} (h : a.looks u.1 = []) :
    a.KeepsOrder u := fun k l _ _ _ _ hkl => by rwa [h, List.append_nil]

/-- A second look at the key that was used last. -/
theorem keepsOrder_of_latest {u : KvStore × List String} {a : Access} (key : String)
    (h : a.looks u.1 = [key]) (hlatest : ∀ k ∈ u.1.store.keys, k ≠ key → MoreRecent u.2 key k) :
    a.KeepsOrder u := by
  intro k l _ hl _ _ hkl
  rw [h]
  exact Lib.Recency.unchanged_of_latest (P := (· ∈ u.1.store))
    (fun c hc => hlatest c (Std.ExtTreeMap.mem_keys.mpr hc)) hl hkl

/-- Four keys in a store with room for three, the second of which is read as soon as it is set. -/
def secondRead : List Access :=
  [.call 0 (.write (.set "key1" (.str "a"))), .call 0 (.write (.set "key2" (.str "b"))),
    .read 0 (.get "key2"), .call 0 (.write (.set "key3" (.str "c"))),
    .call 0 (.write (.set "key4" (.str "d")))]

theorem evicts_in_order_second :
    Guarded (Access.run .strings) InOrder (withConfig { maxMemoryBytes := 3 }, []) secondRead := by
  refine evicts_in_order .strings { maxMemoryBytes := 3 } secondRead ⟨?_, ?_, ?_, ?_, ?_, trivial⟩
  · exact keepsOrder_of_unlooked rfl
  · exact keepsOrder_of_unlooked rfl
  · exact keepsOrder_of_latest "key2" (by decide +kernel) (by decide +kernel)
  · exact keepsOrder_of_unlooked rfl
  · exact keepsOrder_of_unlooked rfl

/-- Four keys in a store with room for three, the first of which is read before the last is set. -/
def firstRead : List Access :=
  [.call 0 (.write (.set "key1" (.str "a"))), .call 0 (.write (.set "key2" (.str "b"))),
    .call 0 (.write (.set "key3" (.str "c"))), .read 0 (.get "key1"),
    .call 0 (.write (.set "key4" (.str "d")))]

/-- The key that was read is evicted, and the one that was not used since is spared. -/
theorem read_key_evicted :
    ((firstRead.foldl (Access.run .strings) (withConfig { maxMemoryBytes := 3 }, [])).1.get 0 "key1").isNone
      = true ∧
    ((firstRead.foldl (Access.run .strings) (withConfig { maxMemoryBytes := 3 }, [])).1.get 0 "key2").isSome
      = true ∧
    ¬ Guarded (Access.run .strings) InOrder (withConfig { maxMemoryBytes := 3 }, []) firstRead := by
  refine ⟨by decide +kernel, by decide +kernel, fun h => ?_⟩
  have hlast := h.2.2.2.2.1
  have hrecent := hlast (by decide +kernel) (by decide +kernel) "key1" "key2"
    (.inr (by decide +kernel)) (by decide +kernel) (by decide +kernel)
  exact absurd hrecent (by decide +kernel)

end KvStore

end Daikon
