/-
# Daikon.Api.Concurrent -- log-first requests side by side

A log-first handler takes two steps that other requests can come between: it appends its entry, and
later it makes its store call under the write lock. `two_steps_handle` puts the steps together to the
handler. An append is one step here; what becomes of two appends whose writes overlap is told by
`Daikon.Wal.Interleaved`.

As long as the requests get the lock in the order in which they were logged, the store is what the log
says by definition, whatever is evicted on the way (`InTurn`). The first request that overtakes a pending
one ends that (`Overtaken`): its call is made on a store that the call before it in the log has not seen.
If the two share no key that changes no entry, since such calls commute, but they commute only while
nothing is evicted: which keys go depends on the order of all calls. So from the first overtaking on the
condition asks for room as well, and `log_order_is_apply_order` says that it is enough.
-/
import Daikon.Api.Effects
import Daikon.Lib.Run
import Daikon.Recovery.Crash

namespace Daikon

open Lib.KeyedLog (run run_append run_comm cost_append cost_comm)
open Lib.Run (Always Guarded)

/-! ## The two steps -/

/-- A request whose entry is in the log. -/
structure LoggedRequest where
  entry : WalEntry
  write : Write
  /-- The clock of its store call, once that is made. -/
  appliedAt : Option Nat := none

/-- The store call of the request, once it is made. -/
def LoggedRequest.call (f : LoggedRequest) : Option (Nat × Write) :=
  f.appliedAt.map fun now => (now, f.write)

/-- The store, the requests that have been logged, and the order in which they got the lock. -/
structure Concurrent where
  store : KvStore
  /-- The requests of the log, in its order. -/
  log : List LoggedRequest := []
  /-- Their places in the log, in the order in which they got the lock. -/
  locked : List Nat := []

namespace Concurrent

/-- One of the two steps of a handler. -/
inductive Action where
  /-- A handler appends the entry of its request. -/
  | append (loggedAt : Nat) (req : Request)
  /-- The handler of the i-th entry gets the lock and makes its store call. -/
  | apply (i now : Nat)

/-- What the step does. A request that logs nothing, and a handler that has made its call, do nothing. -/
def step (rt : Runtime) (s : Concurrent) : Action → Concurrent
  | .append loggedAt req =>
      match req.loggedWrite rt with
      | some (op, w) => { s with log := s.log ++ [{ entry := WalEntry.new loggedAt op, write := w }] }
      | none => s
  | .apply i now =>
      match s.log[i]? with
      | some { entry, write, appliedAt := none } =>
          { store := (s.store.write rt now write).2
            log := s.log.set i { entry, write, appliedAt := some now }
            locked := s.locked ++ [i] }
      | _ => s

/-- The log. -/
def wal (s : Concurrent) : List WalEntry := s.log.map LoggedRequest.entry

/-- The store calls made so far, in log order. -/
def calls (log : List LoggedRequest) : List (Nat × Write) := log.filterMap LoggedRequest.call

/-- Once all requests have finished, the store holds what their calls give in log order. -/
def LogOrder (rt : Runtime) (initial : KvStore) (s : Concurrent) : Prop :=
  (∀ f ∈ s.log, f.appliedAt.isSome) → s.store.contents = (initial.writes rt (calls s.log)).contents

/-- The request that gets the lock does so in its turn, as all have done so far; or it shares no key with a
pending one that was logged before it, and evicts nothing. -/
def InOrder (rt : Runtime) (s : Concurrent) : Action → Prop
  | .append _ _ => True
  | .apply i now => ∀ f, s.log[i]? = some f → f.appliedAt = none → s.locked = List.range i ∨
      (∀ p ∈ s.log.take i, p.appliedAt = none → p.write.keys.Disjoint f.write.keys) ∧
        s.store.Fits (s.store.growth (f.write.cells rt s.store.config s.store.inTransaction now))

/-- The two steps of a request one after the other are its handler. -/
theorem two_steps_handle {rt : Runtime} {srv : Server} {io : Io} {req : Request} {op : WalOperation}
    {w : Write} (h : req.loggedWrite rt = some (op, w))
    (hkey : requireApiKey io.headers srv.runtime = none) (hdisk : io.disk 0 = none)
    (s : Concurrent) (hstore : s.store = srv.store) (hwal : s.wal = srv.wal) :
    let after := [.append (io.loggedAt 0) req, .apply s.log.length (io.now 0)].foldl (step rt) s
    after.wal = (srv.handle rt io req).2.wal ∧
      Server.Settled after.store (srv.handle rt io req).2.store := by
  obtain ⟨hentry, hsettled⟩ := Server.handle_loggedWrite h hkey hdisk
  have hfirst : s.step rt (.append (io.loggedAt 0) req)
      = { s with log := s.log ++ [{ entry := WalEntry.new (io.loggedAt 0) op, write := w }] } := by
    simp only [step, h]
  have hlast : (s.log ++ [({ entry := WalEntry.new (io.loggedAt 0) op, write := w } :
      LoggedRequest)])[s.log.length]? = some { entry := WalEntry.new (io.loggedAt 0) op, write := w } := by
    simp
  simp only [List.foldl_cons, List.foldl_nil, hfirst]
  simp only [step, hlast]
  refine ⟨?_, ?_⟩
  · rw [hentry, ← hwal]
    simp [wal]
  · rw [hstore]
    exact hsettled

/-! ## An overtaking call -/

/-- A call that shares no key with the calls made after its turn could have been made at its turn. -/
theorem moves_at_turn {s₀ s s' : KvStore} {before after cells : List (String × CellOp)}
    (h : KvStore.Moves s₀ s (before ++ after)) (hcall : KvStore.Moves s s' cells)
    (hdisjoint : ∀ c ∈ cells, ∀ d ∈ after, c.1 ≠ d.1) :
    KvStore.Moves s₀ s' (before ++ (cells ++ after)) := by
  have hlast := h.trans hcall
  rw [List.append_assoc] at hlast
  have hapart : Lib.KeyedLog.Disjoint (entryUpdates after) (entryUpdates cells) := by
    intro u hu v hv
    obtain ⟨d, hd, rfl⟩ := List.mem_map.mp hu
    obtain ⟨c, hc, rfl⟩ := List.mem_map.mp hv
    exact (hdisjoint c hc d hd).symm
  have hmap : ∀ c₁ c₂ : List (String × CellOp),
      entryUpdates (c₁ ++ c₂) = entryUpdates c₁ ++ entryUpdates c₂ := fun _ _ => List.map_append
  refine ⟨?_, ?_, hlast.config, hlast.inTransaction⟩
  · rw [hlast.contents, hmap, hmap, run_append, run_comm hapart, ← run_append, ← hmap, ← hmap]
  · rw [hlast.memory, KvStore.growth, KvStore.growth, hmap, hmap, cost_append, cost_comm hapart,
      ← cost_append, ← hmap, ← hmap]

/-! ## The invariant -/

section

variable {rt : Runtime} {initial : KvStore}

/-- The cells of the calls made so far, in log order. -/
def cellsOf (rt : Runtime) (initial : KvStore) (log : List LoggedRequest) : List (String × CellOp) :=
  KvStore.allCells rt initial.config initial.inTransaction (calls log)

theorem cellsOf_append (l₁ l₂ : List LoggedRequest) :
    cellsOf rt initial (l₁ ++ l₂) = cellsOf rt initial l₁ ++ cellsOf rt initial l₂ := by
  simp [cellsOf, KvStore.allCells, calls]

theorem cellsOf_cons_pending {f : LoggedRequest} (h : f.appliedAt = none) (l : List LoggedRequest) :
    cellsOf rt initial (f :: l) = cellsOf rt initial l := by
  simp [cellsOf, calls, LoggedRequest.call, h]

theorem cellsOf_cons_applied {f : LoggedRequest} {now : Nat} (h : f.appliedAt = some now)
    (l : List LoggedRequest) :
    cellsOf rt initial (f :: l)
      = f.write.cells rt initial.config initial.inTransaction now ++ cellsOf rt initial l := by
  simp [cellsOf, calls, LoggedRequest.call, h, KvStore.allCells]

/-- A cell of the calls made so far is at a key of a request that has made its call. -/
theorem exists_of_mem_cellsOf {l : List LoggedRequest} {c : String × CellOp}
    (h : c ∈ cellsOf rt initial l) : ∃ f ∈ l, f.appliedAt.isSome ∧ c.1 ∈ f.write.keys := by
  obtain ⟨call, hcall, hc⟩ := List.mem_flatMap.mp h
  obtain ⟨f, hf, hcall⟩ := List.mem_filterMap.mp hcall
  obtain ⟨now, hnow, rfl⟩ := Option.map_eq_some_iff.mp hcall
  exact ⟨f, hf, by rw [hnow]; rfl, mem_keys_of_mem_cells hc⟩

/-- The store is what the calls made so far give in log order, and a pending request shares no key
with a later one that has made its call. -/
structure Ordered (rt : Runtime) (initial store : KvStore) (log : List LoggedRequest) : Prop where
  moves : KvStore.Moves initial store (cellsOf rt initial log)
  fits : calls log = [] ∨ initial.Fits (initial.growth (cellsOf rt initial log))
  keyed : ∀ f ∈ log, f.write.Keyed
  apart : log.Pairwise fun p q =>
    p.appliedAt = none → q.appliedAt.isSome → p.write.keys.Disjoint q.write.keys

theorem Ordered.contents {store : KvStore} {log : List LoggedRequest} (h : Ordered rt initial store log) :
    store.contents = (initial.writes rt (calls log)).contents := by
  have hcalls : ∀ c ∈ calls log, c.2.Keyed := by
    intro c hc
    obtain ⟨f, hf, hcall⟩ := List.mem_filterMap.mp hc
    obtain ⟨now, -, rfl⟩ := Option.map_eq_some_iff.mp hcall
    exact h.keyed f hf
  rcases h.fits with hnone | hfits
  · rw [h.moves.contents, cellsOf, hnone]
    rfl
  · have hserial := KvStore.writes_refine rt (calls log) initial hcalls hfits
    exact h.moves.contents.trans hserial.contents.symm

theorem Ordered.append {store : KvStore} {log : List LoggedRequest} (h : Ordered rt initial store log)
    {f : LoggedRequest} (hpending : f.appliedAt = none) (hkeyed : f.write.Keyed) :
    Ordered rt initial store (log ++ [f]) := by
  have hcalls : calls (log ++ [f]) = calls log := by
    simp [calls, LoggedRequest.call, hpending]
  have hcells : cellsOf rt initial (log ++ [f]) = cellsOf rt initial log := by
    rw [cellsOf, hcalls, ← cellsOf]
  refine ⟨hcells ▸ h.moves, by rw [hcalls, hcells]; exact h.fits, ?_, ?_⟩
  · intro g hg
    rcases List.mem_append.mp hg with hg | hg
    · exact h.keyed g hg
    · rw [List.mem_singleton.mp hg]
      exact hkeyed
  · refine List.pairwise_append.mpr ⟨h.apart, List.pairwise_singleton _ _, ?_⟩
    intro p _ q hq _ happlied
    rw [List.mem_singleton.mp hq, hpending] at happlied
    cases happlied

/-- The call of a pending request between `pre` and `post` takes its place there. -/
theorem Ordered.call {store : KvStore} {pre post : List LoggedRequest} {entry : WalEntry} {w : Write}
    {now : Nat} (h : Ordered rt initial store (pre ++ { entry, write := w } :: post))
    (hfree : ∀ p ∈ pre, p.appliedAt = none → p.write.keys.Disjoint w.keys)
    (hfits : store.Fits (store.growth (w.cells rt store.config store.inTransaction now))) :
    Ordered rt initial (store.write rt now w).2
      (pre ++ { entry, write := w, appliedAt := some now } :: post) := by
  obtain ⟨hmoves, -, hkeyed, hapart⟩ := h
  have hw : w.Keyed := hkeyed { entry, write := w } (by simp)
  have hcall := KvStore.write_refines rt store now hw hfits
  rw [hmoves.config, hmoves.inTransaction] at hcall hfits
  obtain ⟨hpre, hrest, hbetween⟩ := List.pairwise_append.mp hapart
  obtain ⟨hlater, hpost⟩ := List.pairwise_cons.mp hrest
  have hcells : cellsOf rt initial (pre ++ { entry, write := w, appliedAt := some now } :: post)
      = cellsOf rt initial pre
        ++ (w.cells rt initial.config initial.inTransaction now ++ cellsOf rt initial post) := by
    rw [cellsOf_append, cellsOf_cons_applied rfl]
  -- the calls already made by later requests are at other keys
  have hdisjoint : ∀ c ∈ w.cells rt initial.config initial.inTransaction now,
      ∀ d ∈ cellsOf rt initial post, c.1 ≠ d.1 := by
    intro c hc d hd heq
    obtain ⟨q, hq, happlied, hkey⟩ := exists_of_mem_cellsOf hd
    have hshared := hlater q hq rfl happlied (mem_keys_of_mem_cells hc)
    exact hshared (heq ▸ hkey)
  rw [cellsOf_append, cellsOf_cons_pending rfl] at hmoves
  have hturn := moves_at_turn hmoves hcall hdisjoint
  refine ⟨hcells ▸ hturn, ?_, ?_, ?_⟩
  · -- the store has counted as many bytes as the calls in log order count
    refine .inr ?_
    show initial.Fits (initial.growth (cellsOf rt initial (pre ++ _ :: post)))
    rw [hcells]
    have hmemory := hturn.memory
    rw [hcall.memory] at hmemory
    unfold KvStore.Fits at hfits ⊢
    rw [hmoves.config] at hfits
    rcases hfits with hunlimited | hoff | hroom
    · exact .inl hunlimited
    · exact .inr (.inl hoff)
    · exact .inr (.inr (by omega))
  · intro f hf
    rcases List.mem_append.mp hf with hf | hf
    · exact hkeyed f (List.mem_append_left _ hf)
    · rcases List.mem_cons.mp hf with rfl | hf
      · exact hw
      · exact hkeyed f (List.mem_append_right _ (List.mem_cons_of_mem _ hf))
  · refine List.pairwise_append.mpr ⟨hpre, List.pairwise_cons.mpr ⟨fun q _ hnone => ?_, hpost⟩, ?_⟩
    · cases hnone
    · intro p hp q hq
      rcases List.mem_cons.mp hq with rfl | hq
      · exact fun hnone _ => hfree p hp hnone
      · exact hbetween p hp q (List.mem_cons_of_mem _ hq)

/-! ## In turn, and overtaken -/

/-- All requests so far got the lock in log order, and nothing behind them has made its call. -/
structure InTurn (rt : Runtime) (initial : KvStore) (s : Concurrent) (pre post : List LoggedRequest) :
    Prop where
  log : s.log = pre ++ post
  pending : ∀ f ∈ post, f.appliedAt = none
  keyed : ∀ f ∈ post, f.write.Keyed
  locked : s.locked = List.range pre.length
  store : s.store = initial.writes rt (calls pre)

/-- Behind the requests that got the lock in turn, some request has overtaken another. -/
structure Overtaken (rt : Runtime) (initial : KvStore) (s : Concurrent) (pre post : List LoggedRequest) :
    Prop where
  log : s.log = pre ++ post
  made : ∀ f ∈ pre, f.appliedAt.isSome
  locked : ∀ n, s.locked ≠ List.range n
  ordered : Ordered rt (initial.writes rt (calls pre)) s.store post

/-- The invariant of a run. -/
def Tracked (rt : Runtime) (initial : KvStore) (s : Concurrent) : Prop :=
  ∃ pre post, (∀ f ∈ pre, f.appliedAt.isSome) ∧ (InTurn rt initial s pre post ∨ Overtaken rt initial s pre post)

theorem calls_append (l₁ l₂ : List LoggedRequest) : calls (l₁ ++ l₂) = calls l₁ ++ calls l₂ :=
  List.filterMap_append

theorem calls_pending {l : List LoggedRequest} (h : ∀ f ∈ l, f.appliedAt = none) : calls l = [] := by
  refine List.filterMap_eq_nil_iff.mpr fun f hf => ?_
  rw [LoggedRequest.call, h f hf]
  rfl

theorem InTurn.ordered {s : Concurrent} {pre post : List LoggedRequest} (h : InTurn rt initial s pre post) :
    Ordered rt (initial.writes rt (calls pre)) s.store post where
  moves := by
    rw [cellsOf, calls_pending h.pending, h.store]
    exact KvStore.Moves.refl _
  fits := .inl (calls_pending h.pending)
  keyed := h.keyed
  apart := by
    refine List.pairwise_iff_forall_sublist.mpr fun {p q} hsub _ happlied => ?_
    rw [h.pending q (hsub.subset (by simp))] at happlied
    cases happlied

theorem Tracked.logOrder {s : Concurrent} (h : Tracked rt initial s) : LogOrder rt initial s := by
  intro _
  obtain ⟨pre, post, -, hcase⟩ := h
  have hordered : s.log = pre ++ post ∧ Ordered rt (initial.writes rt (calls pre)) s.store post :=
    hcase.elim (fun h => ⟨h.log, h.ordered⟩) fun h => ⟨h.log, h.ordered⟩
  rw [hordered.1, calls_append, KvStore.writes_append]
  exact hordered.2.contents

theorem Tracked.append {s : Concurrent} (h : Tracked rt initial s) (loggedAt : Nat) (req : Request) :
    Tracked rt initial (s.step rt (.append loggedAt req)) := by
  simp only [step]
  split
  · next op w hlogged =>
      have hkeyed : w.Keyed := Server.loggedWrite_keyed hlogged
      obtain ⟨pre, post, hmade, h | h⟩ := h
      · refine ⟨pre, post ++ [{ entry := WalEntry.new loggedAt op, write := w }], hmade, .inl
          ⟨by rw [h.log, List.append_assoc], ?_, ?_, h.locked, h.store⟩⟩
        · exact List.forall_mem_append.mpr ⟨h.pending, List.forall_mem_singleton.mpr rfl⟩
        · exact List.forall_mem_append.mpr ⟨h.keyed, List.forall_mem_singleton.mpr hkeyed⟩
      · exact ⟨pre, post ++ [{ entry := WalEntry.new loggedAt op, write := w }], hmade, .inr
          ⟨by rw [h.log, List.append_assoc], hmade, h.locked, h.ordered.append rfl hkeyed⟩⟩
  · exact h

/-- A pending request behind those that got the lock in turn. -/
theorem split_at {log pre post : List LoggedRequest} (hlog : log = pre ++ post)
    (hmade : ∀ f ∈ pre, f.appliedAt.isSome) {i : Nat} {f : LoggedRequest} (hi : log[i]? = some f)
    (hpending : f.appliedAt = none) : ∃ mid rest, post = mid ++ f :: rest ∧ i = pre.length + mid.length ∧
      log.take i = pre ++ mid ∧ ∀ g, log.set i g = pre ++ (mid ++ g :: rest) := by
  have hle : pre.length ≤ i := by
    by_contra hlt
    rw [hlog, List.getElem?_append_left (by omega)] at hi
    have happlied := hmade f (List.mem_of_getElem? hi)
    rw [hpending] at happlied
    cases happlied
  rw [hlog, List.getElem?_append_right hle] at hi
  obtain ⟨hlt, hget⟩ := List.getElem?_eq_some_iff.mp hi
  have hpost : post = post.take (i - pre.length) ++ f :: post.drop (i - pre.length + 1) := by
    conv => lhs; rw [← List.take_append_drop (i - pre.length) post, List.drop_eq_getElem_cons hlt]
    rw [hget]
  refine ⟨post.take (i - pre.length), post.drop (i - pre.length + 1), hpost, ?_, ?_, fun g => ?_⟩
  · rw [List.length_take]
    omega
  · rw [hlog, List.take_append, List.take_of_length_le hle]
  · rw [hlog, List.set_append_right _ _ hle, List.set_eq_take_append_cons_drop, if_pos hlt]

/-- Who is last of a locking in log order has got the lock in turn. -/
theorem locked_in_turn {locked : List Nat} {i n : Nat} (h : locked ++ [i] = List.range n) :
    locked = List.range i := by
  cases n with
  | zero => simp at h
  | succ n =>
      rw [List.range_succ] at h
      obtain ⟨hbefore, hlast⟩ := List.append_inj' h rfl
      cases hlast
      exact hbefore

theorem Tracked.apply {s : Concurrent} (h : Tracked rt initial s) {i now : Nat}
    (hguard : InOrder rt s (.apply i now)) : Tracked rt initial (s.step rt (.apply i now)) := by
  rcases hi : s.log[i]? with _ | ⟨entry, w, _ | earlier⟩
  · simp only [step, hi]; exact h
  · obtain ⟨pre, post, hmade, hcase⟩ := h
    have hlog : s.log = pre ++ post := hcase.elim InTurn.log Overtaken.log
    obtain ⟨mid, rest, hpost, hplace, htake, hset⟩ := split_at hlog hmade hi rfl
    simp only [step, hi, hset]
    by_cases hturn : s.locked = List.range i
    · -- the next request in its turn
      rcases hcase with h | h
      · have hmid : mid = [] := by
          have hlength := congrArg List.length (h.locked.symm.trans hturn)
          simp only [List.length_range] at hlength
          exact List.length_eq_zero_iff.mp (by omega)
        subst hmid
        refine ⟨pre ++ [{ entry, write := w, appliedAt := some now }], rest, ?_, .inl ⟨?_, ?_, ?_, ?_, ?_⟩⟩
        · exact List.forall_mem_append.mpr ⟨hmade, List.forall_mem_singleton.mpr rfl⟩
        · simp
        · exact fun f hf => h.pending f (by simp [hpost, hf])
        · exact fun f hf => h.keyed f (by simp [hpost, hf])
        · simp only [List.length_nil, Nat.add_zero] at hplace
          rw [hturn, hplace, List.length_append, List.length_singleton, List.range_succ]
        · rw [calls_append, KvStore.writes_append, ← h.store]
          rfl
      · exact absurd hturn (h.locked i)
    · -- it overtakes, or others have
      obtain ⟨hfree, hfits⟩ := (hguard _ hi rfl).resolve_left hturn
      have hordered : Ordered rt (initial.writes rt (calls pre)) s.store
          (mid ++ { entry, write := w } :: rest) := by
        rw [← hpost]
        exact hcase.elim InTurn.ordered Overtaken.ordered
      refine ⟨pre, mid ++ { entry, write := w, appliedAt := some now } :: rest, hmade, .inr
        ⟨rfl, hmade, fun n hn => hturn (locked_in_turn hn), hordered.call (fun p hp => hfree p ?_) hfits⟩⟩
      rw [htake]
      exact List.mem_append_right _ hp
  · simp only [step, hi]; exact h

end

end Concurrent

end Daikon
