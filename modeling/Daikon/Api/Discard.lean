/-
# Daikon.Api.Discard -- two clients and one transaction queue

The queue of an open transaction belongs to the store, not to the client that opened it. So a plain write of
another client is answered with success, queued and dropped by the DISCARD of the first. As long as no write
of the second client is acknowledged while the transaction is open, what it was told is in effect stays in
effect (`acknowledged_in_effect`).

The two clients are two lists of requests, and a run is any interleaving of the two; those of the first
client are MULTI, some writes and DISCARD (`Interleaves`). What the second client was told is noted with
every success, so `InEffect` speaks at any time of the last thing it heard of each key.

The condition goes by the state before a turn (`Harmless`): a write of the second client that will be
acknowledged meets no open transaction and pushes out none of the keys that were noted. It is the code's
queue that makes it necessary. While a transaction is open the plain write is answered with success and is
queued (`acknowledged_write_dropped`), and the client that may drop it is another one.
-/
import Daikon.Lib.Run
import Daikon.Recovery.Crash
import Daikon.Store.Isolation
import Daikon.Store.Victims

namespace Daikon

open Lib.KeyedLog (run)
open Lib.Run (Always Guarded)

/-! ## Calls that leave keys alone -/

/-- Cell operations that would change nothing at a key leave its cell. -/
theorem run_idle {k : String} {cells : List (String × CellOp)} :
    ∀ {m : String → Option ValueWithTTL}, (∀ c ∈ cells, c.1 = k → c.2.Idle (m k)) →
      run (entryUpdates cells) m k = m k := by
  induction cells with
  | nil => intro m _; rfl
  | cons c cells ih =>
      intro m h
      have hfirst : Lib.KeyedLog.apply m ⟨c.1, c.2.onEntry, c.2.bytes⟩ k = m k := by
        by_cases hk : k = c.1
        · have hidle := h c List.mem_cons_self hk.symm
          rw [Lib.KeyedLog.apply, hk, Function.update_self]
          rw [hk] at hidle
          exact hidle
        · exact Function.update_of_ne hk _ _
      show run (entryUpdates cells) (Lib.KeyedLog.apply m ⟨c.1, c.2.onEntry, c.2.bytes⟩) k = m k
      rw [ih, hfirst]
      rw [hfirst]
      exact fun d hd => h d (List.mem_cons_of_mem _ hd)

namespace KvStore

theorem assignIf_open {s : KvStore} (htx : s.inTransaction = true) (key : String) (value : Value)
    (expiresAt : Option Nat) :
    CellOp.assignIf s.config s.inTransaction key value expiresAt = .nop :=
  if_neg fun h => by rw [htx] at h; cases h.2

/-- The puts of an MSET in an open transaction are none. -/
theorem assignAll_open {s : KvStore} (htx : s.inTransaction = true) (pairs : List (String × String)) :
    run (entryUpdates (CellOp.assignAll s.config s.inTransaction pairs)) s.contents = s.contents := by
  induction pairs with
  | nil => rfl
  | cons pair pairs ih =>
      obtain ⟨key, value⟩ := pair
      rw [CellOp.assignAll]
      split
      · rw [assignIf_open htx]
        exact (congrArg _ (Moves.nop s key).contents.symm).trans ih
      · rfl

/-- In an open transaction a keyed call does what its cell operations say, whatever the counter. -/
theorem write_open (rt : Runtime) {s : KvStore} (htx : s.inTransaction = true) (now : Nat) {w : Write}
    (hw : w.Keyed) : (s.write rt now w).2.contents
      = run (entryUpdates (w.cells rt s.config s.inTransaction now)) s.contents := by
  have hone : ∀ key, run (entryUpdates [(key, .nop)]) s.contents = s.contents := fun key =>
    (Moves.nop s key).contents.symm
  cases w with
  | set key value =>
      rw [Write.cells, assignIf_open htx, hone]
      exact (setWithExpiry_deferred htx now key value none).contents
  | setWithTtl key value ttl =>
      rw [Write.cells, assignIf_open htx, hone]
      exact (setWithExpiry_deferred htx now key value _).contents
  | getset key value =>
      rw [Write.cells, assignIf_open htx, hone, show (s.write rt now (.getset key value)).2 = _ from
        getset_snd s key now value]
      exact (setWithExpiry_deferred htx now key value none).contents
  | mset pairs =>
      rw [Write.cells, assignAll_open htx]
      exact (mset_deferred now pairs htx).contents
  | append key value =>
      cases hkey : s.store[key]? with
      | some entry => exact (append_present s key now value hkey).contents
      | none =>
          have hcell : s.contents key = none := hkey
          have hsame : (s.append now key value).2.contents = s.contents := by
            rw [append_absent s key now value hkey]
            exact (setWithExpiry_deferred htx now key _ none).contents
          refine hsame.trans (funext fun k => (run_idle fun c hc hk => ?_).symm)
          obtain rfl := List.mem_singleton.mp hc
          obtain rfl : key = k := hk
          rw [hcell]
          simp [CellOp.Idle, CellOp.appendStr, CellOp.onEntry, htx]
  | pfadd key values => exact hw.elim
  | pfmerge destination sources => exact hw.elim
  | _ => exact Moves.contents (write_moves rt s now trivial)

/-- The call evicts nothing and would change nothing at the keys in question. -/
def SparesKeys (rt : Runtime) (kept : String → Prop) (s : KvStore) (c : Nat × Write) : Prop :=
  (s.inTransaction = true ∨ Roomless c.2 ∨
      s.Fits (s.growth (c.2.cells rt s.config s.inTransaction c.1))) ∧
    ∀ cell ∈ c.2.cells rt s.config s.inTransaction c.1, kept cell.1 →
      cell.2.Idle (s.contents cell.1)

theorem SparesKeys.contents {rt : Runtime} {kept : String → Prop} {s : KvStore} {c : Nat × Write}
    (h : s.SparesKeys rt kept c) (hw : c.2.Keyed) {k : String} (hk : kept k) :
    (s.write rt c.1 c.2).2.contents k = s.contents k := by
  have hcells : (s.write rt c.1 c.2).2.contents
      = run (entryUpdates (c.2.cells rt s.config s.inTransaction c.1)) s.contents := by
    rcases h.1 with htx | hroomless | hfits
    · exact write_open rt htx c.1 hw
    · exact (write_moves rt s c.1 hroomless).contents
    · exact (write_refines rt s c.1 hw hfits).contents
  rw [hcells]
  exact run_idle fun cell hcell heq => heq ▸ h.2 cell hcell (heq ▸ hk)

end KvStore

/-- The same of the effects of a request, each at its turn. -/
def Effect.Spare (rt : Runtime) (kept : String → Prop) : List Effect → KvStore → Prop
  | [], _ => True
  | e :: effects, s =>
      (∀ c, e.call = some c → s.SparesKeys rt kept c) ∧ Spare rt kept effects (e.onStore rt s)

theorem Effect.Spare.contents {rt : Runtime} {kept : String → Prop} {effects : List Effect} {k : String}
    (hk : kept k) : ∀ {s : KvStore}, Spare rt kept effects s →
      (∀ e ∈ effects, Server.CallsKeyed e) →
        (effects.foldl (Effect.onStore rt) s).contents k = s.contents k := by
  induction effects with
  | nil => intro s _ _; rfl
  | cons e effects ih =>
      intro s h hkeyed
      obtain ⟨c, hc, hw⟩ := hkeyed e List.mem_cons_self
      rw [List.foldl_cons, ih h.2 fun e' he' => hkeyed e' (List.mem_cons_of_mem _ he')]
      unfold Effect.onStore
      rw [hc]
      exact (h.1 c hc).contents hw hk

/-- What a HyperLogLog request does, and at which key. -/
def Request.hllCell (rt : Runtime) (s : KvStore) : Request → Option (String × CellOp)
  | hllPfadd key values => some (key, .addValues rt s.config key values)
  | hllPfreserve key precision => some (key, if s.config.ValidKey key then
      .edit id (some (.hyperLogLog (HyperLogLog.new precision))) else .nop)
  | hllPfmerge destination sources => some (destination, s.mergeCell destination sources)
  | _ => none

theorem Server.handle_hll (rt : Runtime) (srv : Server) (io : Io) {req : Request}
    {c : String × CellOp} (h : req.hllCell rt srv.store = some c) :
    (srv.handle rt io req).2.store.contents = srv.store.contents ∨
      (srv.handle rt io req).2.store.contents
        = Function.update srv.store.contents c.1 (c.2.onEntry (srv.store.contents c.1)) := by
  unfold handle
  split
  · exact .inl rfl
  · right
    cases req with
    | hllPfadd key values =>
        cases h
        simp only [dispatch, hllPfadd, hllAnswer, ofResult_snd]
        exact (KvStore.pfadd_moves rt srv.store key values).contents
    | hllPfreserve key precision =>
        cases h
        simp only [dispatch, hllPfreserve, hllAnswer, ofResult_snd]
        exact (KvStore.pfreserve_moves srv.store key precision).contents
    | hllPfmerge destination sources =>
        cases h
        simp only [dispatch, hllPfmerge, hllAnswer, ofResult_snd]
        exact KvStore.pfmerge_mergeCell srv.store destination sources
    | _ => cases h

/-! ## The run of the two clients -/

/-- The client that opens the transaction, and the other one. -/
inductive Client where
  | a
  | b
  deriving DecidableEq

/-- A request is served. -/
structure Turn where
  client : Client
  io : Io
  req : Request

/-- What a plain `set_value` or `delete_value` is to leave at its key. -/
def Request.plain (io : Io) : Request → Option (String × Option ValueWithTTL)
  | setValue key value ttlSecs => some (key, some ⟨.str value, ttlSecs.bind (checkedAdd (io.now 0))⟩)
  | deleteValue key => some (key, none)
  | _ => none

/-- A write of any kind. -/
def Request.Changes : Request → Prop
  | hllPfadd _ _ | hllPfreserve _ _ | hllPfmerge _ _ => True
  | req => req.IsWrite

theorem Request.Changes.isWrite {rt : Runtime} {s : KvStore} {req : Request} (h : req.Changes)
    (hnone : req.hllCell rt s = none) : req.IsWrite := by
  cases req with
  | hllPfadd _ _ | hllPfreserve _ _ | hllPfmerge _ _ => cases hnone
  | _ => exact h

/-- The run interleaves a client that issues MULTI, some writes and DISCARD with one that issues only
plain `set_value` and `delete_value` requests. -/
structure Interleaves (turns : List Turn) : Prop where
  ofA : ∃ writes : List Request, (∀ req ∈ writes, req.Changes) ∧
    (turns.filter fun t => t.client = .a).map Turn.req = .multi :: writes ++ [.discard]
  ofB : ∀ t ∈ turns, t.client = .b → (t.req.plain t.io).isSome

/-- The server, and what the second client was told last about each key it wrote. -/
structure Shared where
  server : Server
  acked : String → Option (Option ValueWithTTL) := fun _ => none

namespace Shared

/-- The answer to a request of the second client is noted if it is a success. -/
def note (s : Shared) (t : Turn) (status : Nat) : String → Option (Option ValueWithTTL) :=
  if t.client = .b ∧ status = 200 then
    match t.req.plain t.io with
    | some (key, entry) => Function.update s.acked key (some entry)
    | none => s.acked
  else s.acked

/-- A turn: its request is answered, and the second client notes what it was told. -/
def step (rt : Runtime) (s : Shared) (t : Turn) : Shared :=
  let r := s.server.handle rt t.io t.req
  { server := r.2, acked := s.note t r.1.status }

/-- What the second client was told last is in effect. -/
def InEffect (s : Shared) : Prop :=
  ∀ key entry, s.acked key = some entry → s.server.store.contents key = entry

/-- A write of the second client that is answered with success comes while no transaction is open, and
evicts neither its key nor one that the client wrote. A request of the first client spares the keys that
the second one wrote. -/
def Harmless (rt : Runtime) (s : Shared) (t : Turn) : Prop :=
  match t.client with
  | .a => Effect.Spare rt (fun k => s.acked k ≠ none) (s.server.effects rt t.io t.req) s.server.store ∧
      ∀ c, t.req.hllCell rt s.server.store = some c → s.acked c.1 ≠ none →
        c.2.Idle (s.server.store.contents c.1)
  | .b => (s.server.handle rt t.io t.req).1.status = 200 → s.server.store.inTransaction = false ∧
      match t.req with
      | .setValue key value _ => ∀ k, (k = key ∨ ∃ entry, s.acked k = some (some entry)) →
          ¬ s.server.store.PutTakes key (.str value) k
      | _ => True

end Shared

/-! ## What a plain request does -/

theorem KvStore.delete_not_found {s : KvStore} {key : String} (now : Nat)
    (h : (s.delete now key).1 = none) : (s.delete now key).2.contents = s.contents := by
  unfold delete at h ⊢
  by_cases htx : s.inTransaction = true
  · rw [if_pos htx]
    have hdeferred := delete_deferred htx now key
    unfold delete at hdeferred
    rw [if_pos htx] at hdeferred
    exact hdeferred.contents
  · rw [if_neg htx] at h ⊢
    cases hkey : s.store[key]? with
    | none => rfl
    | some entry =>
        rw [hkey] at h
        cases h

namespace Server

/-- What a plain request does, if it is not answered with success: nothing to the entries. -/
structure Refused (rt : Runtime) (srv : Server) (io : Io) (req : Request) : Prop where
  status : (srv.handle rt io req).1.status ≠ 200
  contents : (srv.handle rt io req).2.store.contents = srv.store.contents

theorem refused_of_dispatch {rt : Runtime} {srv : Server} {io : Io} {req : Request} {r : Response}
    (hr : r.status ≠ 200) (h : srv.dispatch rt io req = (r, srv)) : Refused rt srv io req := by
  cases hkey : requireApiKey io.headers srv.runtime with
  | some refusal =>
      have hanswer : srv.handle rt io req = (refusal, srv) := handle_unauthorized hkey
      exact ⟨by simp [hanswer, requireApiKey_status hkey], by rw [hanswer]⟩
  | none =>
      have hanswer : srv.handle rt io req = (r, srv) := by simp only [handle, hkey, h]
      exact ⟨by rwa [hanswer], by rw [hanswer]⟩

/-- A log-first request fails before its call, or it is answered as the call is. -/
theorem handle_logFirst {rt : Runtime} {srv : Server} {io : Io} {req : Request} {failure : String}
    {op : WalOperation} {publish : Bool} {call : KvStore → Response × KvStore}
    (h : srv.dispatch rt io req = srv.logFirst io failure op publish call) :
    Refused rt srv io req ∨ (srv.handle rt io req).1 = (call srv.store).1 ∧
      (srv.handle rt io req).2.store.contents = (call srv.store).2.contents := by
  cases hkey : requireApiKey io.headers srv.runtime with
  | some refusal =>
      have hanswer : srv.handle rt io req = (refusal, srv) := handle_unauthorized hkey
      exact .inl ⟨by simp [hanswer, requireApiKey_status hkey], by rw [hanswer]⟩
  | none =>
      have hanswer : srv.handle rt io req = srv.logFirst io failure op publish call := by
        simp only [handle, hkey, h]
      cases hdisk : io.disk 0 with
      | some e =>
          rw [logFirst_failed hdisk] at h
          exact .inl (refused_of_dispatch (by simp) h)
      | none =>
          rw [hanswer]
          exact .inr ⟨logFirst_response hdisk, (logFirst_store hdisk).contents⟩

/-- A `set_value` is refused, or answered with success for the put of its entry. -/
theorem handle_setValue (rt : Runtime) (srv : Server) (io : Io) (key value : String)
    (ttl : Option Nat) :
    Refused rt srv io (.setValue key value ttl) ∨ srv.store.config.Valid key (.str value) ∧
      (srv.handle rt io (.setValue key value ttl)).1.status = 200 ∧
      (srv.handle rt io (.setValue key value ttl)).2.store.contents
        = (srv.store.setWithExpiry (io.now 0) key (.str value)
            (ttl.bind (checkedAdd (io.now 0)))).2.contents := by
  by_cases httl : ttl = some 0
  · exact .inl (refused_of_dispatch (by simp) (if_pos httl))
  · cases hjson : rt.valueToJson (.str value) with
    | error e =>
        refine .inl (refused_of_dispatch (r := ⟨500, .text s!"Failed to serialize value: {e}"⟩)
          (by simp) ?_)
        rw [dispatch, setValue, if_neg httl, hjson]
    | ok json =>
        have hdispatch : srv.dispatch rt io (.setValue key value ttl)
            = srv.logFirst io logFailure (.set key json ttl) true fun store =>
                Response.ofResult (fun _ => .text s!"Set '{key}' successfully")
                  (store.setWithExpiry (io.now 0) key (.str value)
                    (ttl.bind (checkedAdd (io.now 0)))) := by
          rw [dispatch, setValue, if_neg httl, hjson]
          cases ttl <;> rfl
        rcases handle_logFirst hdispatch with hrefused | ⟨hanswer, hcontents⟩
        · exact .inl hrefused
        · rw [ofResult_snd] at hcontents
          by_cases hvalid : srv.store.config.Valid key (.str value)
          · obtain ⟨u, hu⟩ := (setWithExpiry_ok_iff srv.store (io.now 0) key (.str value)
              (ttl.bind (checkedAdd (io.now 0)))).mpr hvalid
            exact .inr ⟨hvalid, by rw [hanswer, Response.ofResult, hu], hcontents⟩
          · obtain ⟨e, he⟩ := KvStore.setWithExpiry_refused (io.now 0)
              (ttl.bind (checkedAdd (io.now 0))) hvalid
            rw [he] at hanswer hcontents
            exact .inl ⟨by rw [hanswer]; simp [Response.ofResult], hcontents⟩

/-- A `delete_value` is refused, or answered with success for the removal of its key. -/
theorem handle_deleteValue (rt : Runtime) (srv : Server) (io : Io) (key : String) :
    Refused rt srv io (.deleteValue key) ∨
      (srv.handle rt io (.deleteValue key)).1.status = 200 ∧
      (srv.handle rt io (.deleteValue key)).2.store.contents
        = (srv.store.delete (io.now 0) key).2.contents := by
  have hdispatch : srv.dispatch rt io (.deleteValue key) = srv.deleteValue io key := rfl
  unfold deleteValue at hdispatch
  rcases handle_logFirst hdispatch with hrefused | ⟨hanswer, hcontents⟩
  · exact .inl hrefused
  · have hfound : (srv.store.delete (io.now 0) key).1 = none → _ := KvStore.delete_not_found (io.now 0)
    rcases hdelete : srv.store.delete (io.now 0) key with ⟨_ | value, s⟩
    · rw [hdelete] at hanswer hcontents hfound
      exact .inl ⟨by rw [hanswer]; simp, hcontents.trans (hfound rfl)⟩
    · rw [hdelete] at hanswer hcontents
      exact .inr ⟨by rw [hanswer], hcontents⟩

end Server

namespace Shared

/-- The requests of the run. -/
def Issues (t : Turn) : Prop :=
  match t.client with
  | .a => t.req = .multi ∨ t.req = .discard ∨ t.req.Changes
  | .b => (t.req.plain t.io).isSome

theorem note_of_a {s : Shared} {t : Turn} (h : t.client = .a) (status : Nat) :
    s.note t status = s.acked := if_neg fun hb => by rw [h] at hb; cases hb.1

theorem note_refused {s : Shared} {t : Turn} {status : Nat} (h : status ≠ 200) :
    s.note t status = s.acked := if_neg fun hb => h hb.2

theorem note_acked {s : Shared} {t : Turn} {key : String} {entry : Option ValueWithTTL}
    (hb : t.client = .b) (hplain : t.req.plain t.io = some (key, entry)) :
    s.note t 200 = Function.update s.acked key (some entry) := by
  rw [note, if_pos ⟨hb, rfl⟩, hplain]

/-- Nothing new is noted, and the keys that were noted are left alone. -/
theorem InEffect.kept {s s' : Shared} (hs : s.InEffect) (hacked : s'.acked = s.acked)
    (hcontents : ∀ key, s.acked key ≠ none →
      s'.server.store.contents key = s.server.store.contents key) : s'.InEffect := by
  intro key entry hnoted
  rw [hacked] at hnoted
  rw [hcontents key (by rw [hnoted]; simp)]
  exact hs key entry hnoted

/-- A key is noted with what it holds from now on, and the other noted keys hold what they held. -/
theorem inEffect_of_noted {s s' : Shared} {key : String} {entry : Option ValueWithTTL}
    (hacked : s'.acked = Function.update s.acked key (some entry))
    (hkey : s'.server.store.contents key = entry)
    (hother : ∀ k e, k ≠ key → s.acked k = some e → s'.server.store.contents k = e) :
    s'.InEffect := by
  intro k e hnoted
  rw [hacked] at hnoted
  by_cases hk : k = key
  · rw [hk, Function.update_self] at hnoted
    rw [hk, hkey]
    exact Option.some.inj hnoted
  · rw [Function.update_of_ne hk] at hnoted
    exact hother k e hk hnoted

/-- A request of the first client that spares the keys leaves what is in effect. -/
theorem step_a (rt : Runtime) {s : Shared} {t : Turn} (ha : t.client = .a)
    (hreq : t.req = .multi ∨ t.req = .discard ∨ t.req.Changes) (hs : s.InEffect)
    (h : s.Harmless rt t) : (s.step rt t).InEffect := by
  refine hs.kept (note_of_a ha _) fun key hkept => ?_
  show (s.server.handle rt t.io t.req).2.store.contents key = _
  have hserver : ∀ {α : Type} (body : α → Json) (r : Except KvStoreError α × KvStore),
      s.server.dispatch rt t.io t.req = s.server.transactionAnswer body r →
        r.2.contents = s.server.store.contents →
          (s.server.handle rt t.io t.req).2.store.contents = s.server.store.contents := by
    intro α body r hdispatch hcontents
    unfold Server.handle
    split
    · rfl
    · rw [hdispatch, Server.transactionAnswer_snd]
      exact hcontents
  rcases hreq with hmulti | hdiscard | hchanges
  · exact congrFun (hserver _ s.server.store.multi (by rw [hmulti]; rfl)
      (KvStore.multi_contents _)) key
  · exact congrFun (hserver _ s.server.store.discard (by rw [hdiscard]; rfl)
      (KvStore.discard_contents _)) key
  · unfold Harmless at h
    rw [ha] at h
    cases hc : t.req.hllCell rt s.server.store with
    | none =>
        rw [(Server.handle_performs rt s.server t.io (hchanges.isWrite hc)).store.contents]
        exact Effect.Spare.contents hkept h.1
          (Server.effects_keyed rt s.server t.io t.req)
    | some c =>
        rcases Server.handle_hll rt s.server t.io hc with hsame | hcell
        · rw [hsame]
        · rw [hcell]
          by_cases hk : key = c.1
          · have hidle := h.2 c hc (hk ▸ hkept)
            rw [hk, Function.update_self]
            exact hidle
          · rw [Function.update_of_ne hk]

/-- A plain request of the second client leaves what is in effect, and takes effect itself if it is
answered with success. -/
theorem step_b (rt : Runtime) {s : Shared} {t : Turn} (hb : t.client = .b)
    (hreq : (t.req.plain t.io).isSome) (hs : s.InEffect) (h : s.Harmless rt t) :
    (s.step rt t).InEffect := by
  have hrefused : Server.Refused rt s.server t.io t.req → (s.step rt t).InEffect := fun hno =>
    hs.kept (note_refused hno.status) fun key _ => congrFun hno.contents key
  obtain ⟨client, io, req⟩ := t
  obtain rfl : client = .b := hb
  cases req with
  | setValue key value ttl =>
      rcases Server.handle_setValue rt s.server io key value ttl with hno | ⟨hvalid, hok, hcontents⟩
      · exact hrefused hno
      · obtain ⟨hopen, hstay⟩ := h hok
        have htx : s.server.store.transactionQueue = none := by
          simpa [KvStore.inTransaction] using hopen
        have hafter := fun k => (congrFun hcontents k).trans (KvStore.put_contents hvalid htx k)
        have hacked : (s.step rt ⟨.b, io, .setValue key value ttl⟩).acked
            = Function.update s.acked key
              (some (some ⟨.str value, ttl.bind (checkedAdd (io.now 0))⟩)) := by
          show s.note _ _ = _
          rw [hok, note_acked rfl rfl]
        refine inEffect_of_noted hacked ?_ fun k e hk hnoted => (hafter k).trans ?_
        · exact (hafter key).trans (by rw [if_neg (hstay key (.inl rfl)), Function.update_self])
        · rw [Function.update_of_ne hk, hs k e hnoted]
          cases e with
          | none => exact ite_self _
          | some old => exact if_neg (hstay k (.inr ⟨old, hnoted⟩))
  | deleteValue key =>
      rcases Server.handle_deleteValue rt s.server io key with hno | ⟨hok, hcontents⟩
      · exact hrefused hno
      · obtain ⟨hopen, -⟩ := h hok
        have hremoved := (KvStore.delete_moves s.server.store key (io.now 0)).contents
        rw [hopen] at hremoved
        have hafter : (s.step rt ⟨.b, io, .deleteValue key⟩).server.store.contents
            = Function.update s.server.store.contents key none := hcontents.trans hremoved
        have hacked : (s.step rt ⟨.b, io, .deleteValue key⟩).acked
            = Function.update s.acked key (some none) := by
          show s.note _ _ = _
          rw [hok, note_acked rfl rfl]
        refine inEffect_of_noted hacked ?_ fun k e hk hnoted => ?_
        · rw [hafter, Function.update_self]
        · rw [hafter, Function.update_of_ne hk]
          exact hs k e hnoted
  | _ => cases hreq

theorem step_inEffect (rt : Runtime) {s : Shared} {t : Turn} (hreq : Issues t) (hs : s.InEffect)
    (h : s.Harmless rt t) : (s.step rt t).InEffect := by
  unfold Issues at hreq
  cases hclient : t.client with
  | a =>
      rw [hclient] at hreq
      exact step_a rt hclient hreq hs h
  | b =>
      rw [hclient] at hreq
      exact step_b rt hclient hreq hs h

end Shared

theorem Interleaves.issues {turns : List Turn} (h : Interleaves turns) :
    ∀ t ∈ turns, Shared.Issues t := by
  intro t ht
  unfold Shared.Issues
  cases hclient : t.client with
  | a =>
      obtain ⟨writes, hwrites, heq⟩ := h.ofA
      have hin : t.req ∈ (turns.filter fun t => t.client = .a).map Turn.req :=
        List.mem_map_of_mem (List.mem_filter.mpr ⟨ht, by simpa using hclient⟩)
      rw [heq] at hin
      simp only [List.mem_cons, List.mem_append, List.not_mem_nil, or_false, List.cons_append] at hin
      rcases hin with hmulti | hwrite | hdiscard
      · exact .inl hmulti
      · exact .inr (.inr (hwrites _ hwrite))
      · exact .inr (.inl hdiscard)
  | b => exact h.ofB t ht hclient

/-- From any server on, over every interleaving of the two clients whose turns are harmless: after every
turn, so after the DISCARD too, what the second client was told last about a key is in effect. -/
theorem acknowledged_in_effect (rt : Runtime) (srv : Server) (turns : List Turn)
    (hturns : Interleaves turns) (h : Guarded (Shared.step rt) (Shared.Harmless rt) { server := srv } turns) :
    Always (Shared.step rt) Shared.InEffect { server := srv } turns := by
  have hstep : ∀ s t, Shared.InEffect s → Shared.Harmless rt s t ∧ Shared.Issues t →
      Shared.InEffect (Shared.step rt s t) := fun s t hs ht => Shared.step_inEffect rt ht.2 hs ht.1
  exact (h.and_forall hturns.issues).always hstep fun key entry hnone => by cases hnone

/-- A new server without a cap. -/
def uncappedServer : Server := Server.fresh { maxMemoryBytes := 0 } none false

/-- The second client sets `k`, and then the first one drops a write of `x`. -/
def droppedRun : List Turn :=
  [⟨.b, .healthy 0, .setValue "k" "1" none⟩, ⟨.a, .healthy 0, .multi⟩,
    ⟨.a, .healthy 0, .setValue "x" "2" none⟩, ⟨.a, .healthy 0, .discard⟩]

theorem acknowledged_in_effect_dropped :
    Always (Shared.step .strings) Shared.InEffect { server := uncappedServer } droppedRun := by
  refine acknowledged_in_effect .strings uncappedServer droppedRun
    ⟨⟨[.setValue "x" "2" none], by simp [Request.Changes, Request.IsWrite], rfl⟩, by decide +kernel⟩
    ⟨fun _ => ⟨by decide +kernel, fun k _ htakes => ?_⟩, ⟨trivial, by simp [Request.hllCell]⟩,
      ⟨⟨fun c hc => ?_, trivial⟩, by simp [Request.hllCell]⟩,
      ⟨trivial, by simp [Request.hllCell]⟩, trivial⟩
  · exact absurd htakes.1.cap (by decide +kernel)
  · -- the second client has not written `x`
    cases hc
    refine ⟨.inl (by decide +kernel), fun cell hcell hkept => absurd ?_ hkept⟩
    rw [List.mem_singleton.mp hcell]
    decide +kernel

/-- The second client sets `k` while the transaction of the first one is open. -/
def overlappingRun : List Turn :=
  [⟨.a, .healthy 0, .multi⟩, ⟨.a, .healthy 0, .setValue "x" "2" none⟩,
    ⟨.b, .healthy 0, .setValue "k" "1" none⟩, ⟨.a, .healthy 0, .discard⟩]

/-- It is answered with success, and its write is dropped. -/
theorem acknowledged_write_dropped : Interleaves overlappingRun ∧
    ¬ (overlappingRun.foldl (Shared.step .strings) { server := uncappedServer }).InEffect := by
  refine ⟨⟨⟨[.setValue "x" "2" none], by simp [Request.Changes, Request.IsWrite], rfl⟩,
    by decide +kernel⟩, fun h => ?_⟩
  have hgone : (overlappingRun.foldl (Shared.step .strings)
      { server := uncappedServer }).server.store.contents "k" = none := by decide +kernel
  have hkept := h "k" (some ⟨.str "1", none⟩) (by decide +kernel)
  exact absurd (hgone.symm.trans hkept) (by simp)

end Daikon
