/-
# Daikon.Api.Counting -- counters over HTTP

`PUT /api/keys/{key}` stores a text whatever it is given, and `incr`, `decr` and `incrby` take nothing but
an integer. So a counter that holds one counts (`counts_of_int`), and one that was created through
`set_value` never does (`set_value_counts_iff`).

A counter request has its own amount (`amount`), and the property is about a run of them: each is answered
with the sum of the first number and all amounts up to its own. The partial sums have to be 64-bit numbers,
since the store checks the addition in none of the three (`SumsFit`), and each request has to be let in with
its entry logged (`Served`).

Under these conditions the first result is what the guide promises, for the keys that hold an integer. The
second is what becomes of it with the request that the guide begins with: `set_value` stores a text, every
following increment is refused with 400, and the entry of the increment is in the log all the same.
-/
import Daikon.Api.Discard
import Daikon.Store.Counters

namespace Daikon

/-- The requests on a counter. -/
inductive CounterRequest where
  | incr
  | decr
  | incrby (amount : Int64)
  deriving DecidableEq, Repr

namespace CounterRequest

/-- The request, on its key. -/
def request (key : String) : CounterRequest → Request
  | incr => .incrValue key
  | decr => .decrValue key
  | incrby amount => .incrbyValue key amount

/-- What the request adds. -/
def amount : CounterRequest → Int64
  | incr => 1
  | decr => -1
  | incrby amount => amount

/-- The operation that its handler logs. -/
def logged (key : String) : CounterRequest → WalOperation
  | incr => .incr key
  | decr => .decr key
  | incrby amount => .incrBy key amount

end CounterRequest

namespace Server

/-- Every request is answered with the number before it and its amount. -/
def Counts (rt : Runtime) (key : String) : Server → Int → List (Io × CounterRequest) → Prop
  | _, _, [] => True
  | srv, total, (io, r) :: rest =>
      (srv.handle rt io (r.request key)).1 = ⟨200, .json (.int (total + r.amount.toInt))⟩ ∧
        Counts rt key (srv.handle rt io (r.request key)).2 (total + r.amount.toInt) rest

section

variable {rt : Runtime} {srv : Server} {key : String}

theorem dispatch_counter (rt : Runtime) (srv : Server) (io : Io) (r : CounterRequest) :
    srv.dispatch rt io (r.request key) = srv.logFirst io logFailure (r.logged key) false fun store =>
        Response.ofResult (fun i => .json (.int i.toInt)) (store.addToInt key r.amount) := by
  cases r <;> rfl

/-! ## An integer counts -/

/-- The request is let in, and its entry is logged. -/
def Served (srv : Server) (io : Io) : Prop :=
  requireApiKey io.headers srv.runtime = none ∧ io.disk 0 = none

/-- The partial sums are 64-bit numbers. -/
def SumsFit : Int → List (Io × CounterRequest) → Prop
  | _, [] => True
  | total, (_, r) :: rest => FitsI64 (total + r.amount.toInt) ∧ SumsFit (total + r.amount.toInt) rest

theorem handle_counter (rt : Runtime) {io : Io} {v : Int64} {expiresAt : Option Nat}
    (hserved : srv.Served io) (hkey : srv.store.store[key]? = some ⟨.int v, expiresAt⟩) (r : CounterRequest) :
    srv.handle rt io (r.request key) = (⟨200, .json (.int (v + r.amount).toInt)⟩,
      { srv with
        store := srv.store.rewriteEntry key ⟨.int (v + r.amount), expiresAt⟩
        wal := srv.wal ++ [WalEntry.new (io.loggedAt 0) (r.logged key)] }) := by
  have hcall : srv.store.addToInt key r.amount
      = (.ok (v + r.amount), srv.store.rewriteEntry key ⟨.int (v + r.amount), expiresAt⟩) := by
    unfold KvStore.addToInt
    rw [hkey]
  simp only [handle, hserved.1, dispatch_counter, logFirst, append, hserved.2, Response.ofResult, hcall]
  rfl

/-- A counter that holds an integer counts, as long as the sums are 64-bit numbers. -/
theorem counts_of_int (requests : List (Io × CounterRequest)) :
    ∀ {srv : Server} {v : Int64} {expiresAt : Option Nat},
      srv.store.store[key]? = some ⟨.int v, expiresAt⟩ → (∀ r ∈ requests, srv.Served r.1) →
      SumsFit v.toInt requests → srv.Counts rt key v.toInt requests := by
  induction requests with
  | nil => exact fun _ _ _ => trivial
  | cons r rest ih =>
      obtain ⟨io, r⟩ := r
      intro srv v expiresAt hkey hserved hsums
      have hsum : (v + r.amount).toInt = v.toInt + r.amount.toInt :=
        (Addition.toInt_add_eq_iff v r.amount).mpr hsums.1
      have hnext : (srv.store.rewriteEntry key ⟨.int (v + r.amount), expiresAt⟩).store[key]?
          = some ⟨.int (v + r.amount), expiresAt⟩ := Std.ExtTreeMap.getElem?_insert_self
      have hanswer := handle_counter rt (hserved (io, r) List.mem_cons_self) hkey r
      unfold Counts
      rw [hanswer, ← hsum]
      refine ⟨rfl, ih hnext (fun r hr => hserved r (List.mem_cons_of_mem _ hr)) ?_⟩
      rw [hsum]
      exact hsums.2

/-! ## A text does not -/

theorem handle_text {io : Io} {text : String} {expiresAt : Option Nat}
    (hkey : srv.store.store[key]? = some ⟨.str text, expiresAt⟩) (r : CounterRequest) :
    (srv.handle rt io (r.request key)).1.status ≠ 200 := by
  rcases handle_logFirst (dispatch_counter rt srv io r) with hrefused | ⟨hanswer, -⟩
  · exact hrefused.status
  · rw [hanswer]
    unfold KvStore.addToInt
    rw [hkey]
    show (400 : Nat) ≠ 200
    decide

/-- After `set_value` has stored the decimal text of a number, no request on the counter succeeds. -/
theorem set_value_counts_iff (rt : Runtime) (srv : Server) (io : Io) (key : String) (n : Int64)
    (ttlSecs : Option Nat) (hstored : ((srv.handle rt io
      (.setValue key (toString n.toInt) ttlSecs)).2.store.store[key]?).map ValueWithTTL.value
        = some (.str (toString n.toInt)))
    (requests : List (Io × CounterRequest)) :
    (srv.handle rt io (.setValue key (toString n.toInt) ttlSecs)).2.Counts rt key n.toInt requests ↔
      requests = [] := by
  generalize (srv.handle rt io (.setValue key (toString n.toInt) ttlSecs)).2 = srv' at hstored ⊢
  obtain ⟨⟨value, expiresAt⟩, hkey, hvalue⟩ := Option.map_eq_some_iff.mp hstored
  cases hvalue
  cases requests with
  | nil => exact iff_of_true trivial rfl
  | cons r rest =>
      -- the first request is refused already
      refine iff_of_false (fun hcounts => ?_) (List.cons_ne_nil _ _)
      exact handle_text hkey r.2 (congrArg Response.status hcounts.1)

end

/-- The requests of the guide: the counter is set to 0 and incremented. -/
def viewsServer : Server :=
  (uncappedServer.handle .strings (.healthy 0) (.setValue "views" (toString (0 : Int64).toInt) none)).2

theorem views_stored : (viewsServer.store.store["views"]?).map ValueWithTTL.value
    = some (.str (toString (0 : Int64).toInt)) := by decide +kernel

theorem set_value_counts_iff_views :
    ¬ viewsServer.Counts .strings "views" (0 : Int64).toInt [(.healthy 0, .incr)] :=
  fun h => absurd ((set_value_counts_iff .strings uncappedServer (.healthy 0) "views" 0 none views_stored
    [(.healthy 0, .incr)]).mp h) (List.cons_ne_nil _ _)

/-- The first increment is answered with 400. -/
theorem views_refused :
    (viewsServer.handle .strings (.healthy 0) (.incrValue "views")).1.status = 400 ∧
      ¬ viewsServer.Counts .strings "views" (0 : Int64).toInt [(.healthy 0, .incr)] := by
  have hstatus : (viewsServer.handle .strings (.healthy 0) (.incrValue "views")).1.status = 400 := by
    decide +kernel
  refine ⟨hstatus, fun h => ?_⟩
  have hanswer : (viewsServer.handle .strings (.healthy 0) (.incrValue "views")).1.status = 200 :=
    congrArg Response.status h.1
  omega

end Server

end Daikon
