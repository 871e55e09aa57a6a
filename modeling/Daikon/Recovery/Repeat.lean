/-
# Daikon.Recovery.Repeat -- replaying a log on the state it led to

At one key, a log that was replayed once may be replayed again if some entry of it puts or removes
the key whatever was there, or if its entries do no more than overwrite hash fields. Appends, pushes
and field increments add up otherwise. `Kept` is the invariant that makes this precise along a run in
which replay makes the calls that the live store made, or drops them.

A log is not cut off when the store is saved, so the next start carries out again what the saved store holds
already. Whether that changes a value is decided key by key: the cells that the log says of a key are a list
of operations on one value (`opsAt`), and the question is whether carrying the list out on its own result
gives that result.

Two kinds of lists pass. A list with a constant operation forgets what it began with (`Pinned`), and so does
a list of field writes, which overwrite what they wrote (`MildAt`). The rest of the module closes `Kept`
under a further entry whose call is repeated by replay (`Kept.replayed`) and under one that replay drops
(`Kept.dropped`).
-/
import Daikon.Store.Fields
import Daikon.Wal.Interpret

namespace Daikon

open Lib.KeyedLog (run run_apply run_append)

/-! ## Cell operations at one key -/

/-- The operations of the cells at a key. -/
def opsAt (k : String) (cells : List (String × CellOp)) : List CellOp :=
  (cells.filter fun c => c.1 = k).map Prod.snd

theorem opsAt_append (k : String) (c₁ c₂ : List (String × CellOp)) :
    opsAt k (c₁ ++ c₂) = opsAt k c₁ ++ opsAt k c₂ := by
  simp [opsAt]

theorem mem_opsAt {k : String} {cells : List (String × CellOp)} {op : CellOp} :
    op ∈ opsAt k cells ↔ (k, op) ∈ cells := by
  simp [opsAt]

/-- At each key, cell operations give what the operations at that key give. -/
theorem run_valueUpdates (cells : List (String × CellOp)) (values : String → Option Value)
    (k : String) :
    run (valueUpdates cells) values k = CellOp.onValues (opsAt k cells) (values k) := by
  rw [run_apply, valueUpdates, opsAt, CellOp.onValues, List.filter_map, List.foldl_map, List.foldl_map]
  rfl

namespace CellOp

theorem onValues_append (o₁ o₂ : List CellOp) (v : Option Value) :
    onValues (o₁ ++ o₂) v = onValues o₂ (onValues o₁ v) := by
  rw [onValues, List.foldl_append]
  rfl

/-- The operation ignores what it finds. -/
def Constant (op : CellOp) : Prop := ∀ v w, op.onValue v = op.onValue w

theorem onValues_constant {ops : List CellOp} {op : CellOp} (hmem : op ∈ ops) (h : op.Constant)
    (v w : Option Value) : onValues ops v = onValues ops w := by
  obtain ⟨pre, post, rfl⟩ := List.append_of_mem hmem
  simp only [onValues, List.foldl_append, List.foldl_cons]
  rw [h]

theorem onValues_none {ops : List CellOp} (h : ∀ op ∈ ops, op.onValue none = none) :
    onValues ops none = none := by
  induction ops with
  | nil => rfl
  | cons op ops ih =>
      rw [onValues, List.foldl_cons, h op (by simp)]
      exact ih fun op' hop => h op' (List.mem_cons_of_mem _ hop)

/-- Puts of strings leave the value as it was, or a string at a key within the limits. -/
theorem onValues_puts {cfg : StoreConfig} {k : String} {ops : List CellOp}
    (h : ∀ op ∈ ops, ∃ text expiresAt, op = assignIf cfg false k (.str text) expiresAt) :
    ∀ v, onValues ops v = v ∨
      (ops ≠ [] ∧ cfg.ValidKey k ∧ ∃ text, onValues ops v = some (.str text)) := by
  induction ops with
  | nil => intro v; exact .inl rfl
  | cons op ops ih =>
      intro v
      obtain ⟨text, expiresAt, hop⟩ := h op (by simp)
      have hrest := ih (fun op' h' => h op' (List.mem_cons_of_mem _ h')) (op.onValue v)
      rw [onValues, List.foldl_cons]
      -- a put outside the limits is no operation
      by_cases hvalid : cfg.Valid k (.str text) ∧ false = false
      · have hstr : op.onValue v = some (.str text) := by
          rw [hop, assignIf, if_pos hvalid]
          rfl
        refine .inr ⟨List.cons_ne_nil _ _, hvalid.1.1, ?_⟩
        rcases hrest with hsame | ⟨-, -, text', hstr'⟩
        · exact ⟨text, hsame.trans hstr⟩
        · exact ⟨text', hstr'⟩
      · have hsame : op.onValue v = v := by
          rw [hop, assignIf, if_neg hvalid]
          cases v <;> rfl
        rw [hsame] at hrest ⊢
        rcases hrest with hsame' | ⟨-, hkey, hstr⟩
        · exact .inl hsame'
        · exact .inr ⟨List.cons_ne_nil _ _, hkey, hstr⟩

/-- Mild operations, one after another, on a value that the operations before leave alone. -/
theorem settled_append {new : List CellOp} :
    ∀ {old : List CellOp} {v : Option Value}, (∀ op ∈ old, op.Mild) → (∀ op ∈ new, op.Mild) →
      Plain v → onValues old v = v →
      Plain (onValues new v) ∧ onValues (old ++ new) (onValues new v) = onValues new v := by
  induction new with
  | nil => intro old v _ _ hv hsettled; exact ⟨hv, by rw [List.append_nil]; exact hsettled⟩
  | cons op new ih =>
      intro old v hold hnew hv hsettled
      have hop := hnew op (by simp)
      have hboth : ∀ op' ∈ old ++ [op], op'.Mild := by
        intro op' hmem
        rcases List.mem_append.mp hmem with h | h
        · exact hold op' h
        · rw [List.mem_singleton.mp h]; exact hop
      have hrest := ih hboth (fun op' h => hnew op' (List.mem_cons_of_mem _ h)) (hop.plain hv)
        (hop.settled hold hv hsettled)
      rw [List.append_assoc, List.singleton_append] at hrest
      exact hrest

end CellOp

/-! ## What a call does at a key, whatever the clock -/

/-- The clock moves expiries only. -/
theorem valueUpdates_now (rt : Runtime) (cfg : StoreConfig) (inTx : Bool) (now now' : Nat)
    (w : Write) : valueUpdates (w.cells rt cfg inTx now) = valueUpdates (w.cells rt cfg inTx now') := by
  cases w with
  | setWithTtl key value ttl =>
      simp only [Write.cells, valueUpdates, List.map_cons, List.map_nil, CellOp.assignIf]
      split <;> rfl
  | _ => rfl

theorem CellOp.assignIf_cases (cfg : StoreConfig) (key : String) (value : Value)
    (expiresAt : Option Nat) :
    (assignIf cfg false key value expiresAt).Constant ∨
      assignIf cfg false key value expiresAt = nop := by
  unfold assignIf
  split
  · exact .inl fun _ _ => rfl
  · exact .inr rfl

/-- At a key outside the limits nothing comes to be. -/
theorem onValue_none_of_invalid {rt : Runtime} {cfg : StoreConfig} {now : Nat} {w : Write}
    {k : String} {op : CellOp} (hk : ¬ cfg.ValidKey k) (h : (k, op) ∈ w.cells rt cfg false now) :
    op.onValue none = none := by
  have hvalid : ∀ value, ¬ cfg.Valid k value := fun value hv => hk hv.1
  have hassign : ∀ value expiresAt,
      (CellOp.assignIf cfg false k value expiresAt).onValue none = none := by
    intro value expiresAt
    rw [CellOp.assignIf, if_neg fun hv => hvalid value hv.1]
    rfl
  cases w with
  | mset pairs =>
      obtain ⟨value, -, hop⟩ := CellOp.mem_assignAll h
      rw [show op = _ from hop]
      exact hassign _ _
  | pfadd | pfmerge => cases h
  | _ =>
      simp only [Write.cells, List.mem_singleton, Prod.mk.injEq] at h
      obtain ⟨rfl, rfl⟩ := h
      first
      | exact hassign _ _
      | rfl
      | simp [CellOp.appendStr, CellOp.pushList, CellOp.setFields, CellOp.addField, CellOp.onValue,
          CellOp.nop, hk, hvalid]

/-! ## The entries of a log at a key -/

namespace WalOperation

/-- The cells of the call that replay makes of an operation. -/
def replayedCells (rt : Runtime) (cfg : StoreConfig) (op : WalOperation) : List (String × CellOp) :=
  (op.replayed rt).elim [] fun w => w.cells rt cfg false 0

/-- Replay puts or removes the key, whatever is there. -/
def Overwrites (rt : Runtime) (cfg : StoreConfig) (k : String) (op : WalOperation) : Prop :=
  ∃ cell ∈ opsAt k (op.replayedCells rt cfg), cell.Constant

/-- The operation adds to what the key holds. -/
def Accumulates (k : String) : WalOperation → Prop
  | append key _ | lPush key _ | rPush key _ | hIncrBy key _ _ | pfAdd key _ | pfMerge key _ => key = k
  | _ => False

/-- The operation names the key, and replay drops it. -/
def Dropped (rt : Runtime) (cfg : StoreConfig) (k : String) (op : WalOperation) : Prop :=
  op.replayed rt = none ∧ opsAt k (op.raw.cells rt cfg false 0) ≠ []

/-- What is left are mild operations. -/
theorem mild_of_not {rt : Runtime} {cfg : StoreConfig} {k : String} {op : WalOperation}
    (hacc : ¬ op.Accumulates k) (hover : ¬ op.Overwrites rt cfg k) :
    ∀ cell ∈ opsAt k (op.replayedCells rt cfg), cell.Mild := by
  intro cell hcell
  have hnot : ¬ cell.Constant := fun h => hover ⟨cell, hcell, h⟩
  -- a put that takes place would overwrite the key
  have hput : ∀ value expiresAt, cell = CellOp.assignIf cfg false k value expiresAt → cell.Mild := by
    rintro value expiresAt rfl
    rcases CellOp.assignIf_cases cfg k value expiresAt with h | h
    · exact absurd h hnot
    · rw [h]; exact CellOp.nop_mild
  rw [mem_opsAt, replayedCells] at hcell
  cases op with
  | set key value ttl =>
      cases hparse : rt.valueFromJson value <;> cases ttl <;>
        simp only [replayed, hparse, Option.map_none, Option.map_some, Option.elim, Write.cells,
          List.not_mem_nil, List.mem_singleton, Prod.mk.injEq] at hcell
      all_goals
        obtain ⟨rfl, hcell⟩ := hcell
        exact hput _ _ hcell
  | getSet key value =>
      cases hparse : rt.valueFromJson value <;>
        simp only [replayed, hparse, Option.map_none, Option.map_some, Option.elim, Write.cells,
          List.not_mem_nil, List.mem_singleton, Prod.mk.injEq] at hcell
      obtain ⟨rfl, hcell⟩ := hcell
      exact hput _ _ hcell
  | mset pairs =>
      cases hparse : decodePairs rt pairs <;>
        simp only [replayed, hparse, Option.map_none, Option.map_some, Option.elim, Write.cells,
          List.not_mem_nil] at hcell
      obtain ⟨value, -, hop⟩ := CellOp.mem_assignAll hcell
      exact hput _ _ hop
  | delete key =>
      simp only [replayed, raw, Option.elim, Write.cells, List.mem_singleton, Prod.mk.injEq] at hcell
      rw [hcell.2] at hnot
      exact absurd (fun _ _ => rfl) hnot
  | pfAdd | pfMerge => cases hcell
  | _ =>
      simp only [replayed, raw, Option.elim, Write.cells, List.mem_singleton, Prod.mk.injEq] at hcell
      obtain ⟨rfl, rfl⟩ := hcell
      first
      | exact absurd rfl hacc
      | exact CellOp.addInt_mild _
      | exact CellOp.popList_mild _
      | exact CellOp.retime_mild _
      | exact CellOp.setFields_mild _ _ _
      | exact CellOp.deleteFields_mild _

end WalOperation

/-- The cells of the calls that replay makes of a log. -/
def logCells (rt : Runtime) (cfg : StoreConfig) (wal : List WalEntry) : List (String × CellOp) :=
  wal.flatMap fun entry => entry.operation.replayedCells rt cfg

theorem logCells_concat (rt : Runtime) (cfg : StoreConfig) (wal : List WalEntry) (entry : WalEntry) :
    logCells rt cfg (wal ++ [entry])
      = logCells rt cfg wal ++ entry.operation.replayedCells rt cfg := by
  simp [logCells]

/-- Some entry overwrites the key, and replay drops no later entry of it. -/
def Pinned (rt : Runtime) (cfg : StoreConfig) (wal : List WalEntry) (k : String) : Prop :=
  ∃ before entry after, wal = before ++ entry :: after ∧ entry.operation.Overwrites rt cfg k ∧
    ∀ e ∈ after, ¬ e.operation.Dropped rt cfg k

/-- No entry overwrites the key or adds to what it holds. -/
def MildAt (rt : Runtime) (cfg : StoreConfig) (wal : List WalEntry) (k : String) : Prop :=
  ∀ entry ∈ wal, ¬ entry.operation.Accumulates k ∧ ¬ entry.operation.Overwrites rt cfg k

theorem Pinned.of_concat {rt : Runtime} {cfg : StoreConfig} {wal : List WalEntry} {k : String}
    {entry : WalEntry} (h : Pinned rt cfg (wal ++ [entry]) k) :
    entry.operation.Overwrites rt cfg k ∨
      (Pinned rt cfg wal k ∧ ¬ entry.operation.Dropped rt cfg k) := by
  obtain ⟨before, pin, after, hwal, hover, hafter⟩ := h
  rcases List.eq_nil_or_concat after with rfl | ⟨after', last, rfl⟩
  · have hlast := List.append_inj_right' hwal rfl
    cases hlast
    exact .inl hover
  · rw [List.concat_eq_append, ← List.cons_append, ← List.append_assoc] at hwal
    have hlast := List.append_inj_right' hwal rfl
    cases hlast
    rw [List.concat_eq_append] at hafter
    exact .inr ⟨⟨before, pin, after', List.append_cancel_right hwal, hover,
      fun e he => hafter e (List.mem_append_left _ he)⟩, hafter _ (by simp)⟩

theorem MildAt.of_concat {rt : Runtime} {cfg : StoreConfig} {wal : List WalEntry} {k : String}
    {entry : WalEntry} (h : MildAt rt cfg (wal ++ [entry]) k) :
    MildAt rt cfg wal k ∧
      ∀ cell ∈ opsAt k (entry.operation.replayedCells rt cfg), cell.Mild :=
  have hentry := h entry (by simp)
  ⟨fun e he => h e (List.mem_append_left _ he), WalOperation.mild_of_not hentry.1 hentry.2⟩

theorem MildAt.mild {rt : Runtime} {cfg : StoreConfig} {wal : List WalEntry} {k : String}
    (h : MildAt rt cfg wal k) : ∀ cell ∈ opsAt k (logCells rt cfg wal), cell.Mild := by
  intro cell hcell
  rw [mem_opsAt, logCells, List.mem_flatMap] at hcell
  obtain ⟨entry, hentry, hcell⟩ := hcell
  exact WalOperation.mild_of_not (h entry hentry).1 (h entry hentry).2 cell (mem_opsAt.mpr hcell)

/-! ## The invariant -/

/-- What the log and the live values have to do with each other, key by key. -/
structure Kept (rt : Runtime) (cfg : StoreConfig) (wal : List WalEntry)
    (values : String → Option Value) : Prop where
  /-- From any start, replay gives a pinned key its value. -/
  pinned : ∀ k, Pinned rt cfg wal k →
    ∀ v, CellOp.onValues (opsAt k (logCells rt cfg wal)) v = values k
  /-- A key with mild entries has a plain value that replay leaves alone. -/
  mild : ∀ k, MildAt rt cfg wal k →
    Plain (values k) ∧ CellOp.onValues (opsAt k (logCells rt cfg wal)) (values k) = values k
  /-- There is nothing at a key outside the limits. -/
  invalid : ∀ k, ¬ cfg.ValidKey k →
    values k = none ∧ CellOp.onValues (opsAt k (logCells rt cfg wal)) none = none

/-- Replaying the log once more gives every pinned, mild or invalid key the value it has. -/
theorem Kept.again {rt : Runtime} {cfg : StoreConfig} {wal : List WalEntry}
    {values : String → Option Value} (h : Kept rt cfg wal values)
    (hkeys : ∀ k, cfg.ValidKey k → Pinned rt cfg wal k ∨ MildAt rt cfg wal k) :
    run (valueUpdates (logCells rt cfg wal)) values = values := by
  funext k
  rw [run_valueUpdates]
  by_cases hk : cfg.ValidKey k
  · rcases hkeys k hk with hpinned | hmild
    · exact h.pinned k hpinned _
    · exact (h.mild k hmild).2
  · obtain ⟨hnone, hrun⟩ := h.invalid k hk
    rw [hnone, hrun]

/-- An entry whose replay makes the call that the live store makes. -/
theorem Kept.replayed {rt : Runtime} {cfg : StoreConfig} {wal : List WalEntry}
    {values : String → Option Value} (h : Kept rt cfg wal values) {entry : WalEntry} {w : Write}
    (hw : entry.operation.replayed rt = some w) :
    Kept rt cfg (wal ++ [entry]) (run (valueUpdates (w.cells rt cfg false 0)) values) := by
  have hcells : entry.operation.replayedCells rt cfg = w.cells rt cfg false 0 := by
    rw [WalOperation.replayedCells, hw]
    rfl
  have hops : ∀ k v, CellOp.onValues (opsAt k (logCells rt cfg (wal ++ [entry]))) v
      = CellOp.onValues (opsAt k (w.cells rt cfg false 0))
          (CellOp.onValues (opsAt k (logCells rt cfg wal)) v) := by
    intro k v
    rw [logCells_concat, hcells, opsAt_append, CellOp.onValues_append]
  refine ⟨fun k hk v => ?_, fun k hk => ?_, fun k hk => ?_⟩
  · rw [hops, run_valueUpdates]
    -- pinned by the new entry, or by an older one
    rcases hk.of_concat with ⟨cell, hcell, hconst⟩ | ⟨hpinned, -⟩
    · rw [hcells] at hcell
      exact CellOp.onValues_constant hcell hconst _ _
    · rw [h.pinned k hpinned]
  · obtain ⟨hold, hnew⟩ := hk.of_concat
    obtain ⟨hplain, hsettled⟩ := h.mild k hold
    rw [hcells] at hnew
    rw [run_valueUpdates, logCells_concat, hcells, opsAt_append]
    exact CellOp.settled_append hold.mild hnew hplain hsettled
  · obtain ⟨hnone, hrun⟩ := h.invalid k hk
    have hcall : CellOp.onValues (opsAt k (w.cells rt cfg false 0)) none = none :=
      CellOp.onValues_none fun op hop => onValue_none_of_invalid hk (mem_opsAt.mp hop)
    exact ⟨by rw [run_valueUpdates, hnone, hcall], by rw [hops, hrun, hcall]⟩

/-- The calls whose texts replay may drop put strings, or nothing. -/
theorem dropped_cells {rt : Runtime} {cfg : StoreConfig} {op : WalOperation}
    (h : op.replayed rt = none) {c : String × CellOp} (hc : c ∈ op.raw.cells rt cfg false 0) :
    ∃ text expiresAt, c.2 = CellOp.assignIf cfg false c.1 (.str text) expiresAt := by
  cases op with
  | set key value ttl =>
      cases ttl <;>
        simp only [WalOperation.raw, Write.cells, List.mem_singleton] at hc <;> subst hc <;>
        exact ⟨_, _, rfl⟩
  | getSet key value =>
      simp only [WalOperation.raw, Write.cells, List.mem_singleton] at hc
      subst hc
      exact ⟨_, _, rfl⟩
  | mset pairs =>
      obtain ⟨value, -, hop⟩ := CellOp.mem_assignAll hc
      exact ⟨value, none, hop⟩
  | _ => cases h

/-- An entry that replay drops, while the live store puts the texts. -/
theorem Kept.dropped {rt : Runtime} {cfg : StoreConfig} {wal : List WalEntry}
    {values : String → Option Value} (h : Kept rt cfg wal values) {entry : WalEntry}
    (hw : entry.operation.replayed rt = none) :
    Kept rt cfg (wal ++ [entry])
      (run (valueUpdates (entry.operation.raw.cells rt cfg false 0)) values) := by
  have hcells : entry.operation.replayedCells rt cfg = [] := by
    rw [WalOperation.replayedCells, hw]
    rfl
  have hlog : logCells rt cfg (wal ++ [entry]) = logCells rt cfg wal := by
    rw [logCells_concat, hcells, List.append_nil]
  -- at a key that the entry does not name nothing happens, elsewhere a string may appear
  have hvalue : ∀ k, run (valueUpdates (entry.operation.raw.cells rt cfg false 0)) values k = values k ∨
      (entry.operation.Dropped rt cfg k ∧ cfg.ValidKey k ∧
        ∃ text, run (valueUpdates (entry.operation.raw.cells rt cfg false 0)) values k
          = some (.str text)) := by
    intro k
    rw [run_valueUpdates]
    have hall : ∀ op ∈ opsAt k (entry.operation.raw.cells rt cfg false 0), ∃ text expiresAt,
        op = CellOp.assignIf cfg false k (.str text) expiresAt :=
      fun op hop => dropped_cells hw (mem_opsAt.mp hop)
    rcases CellOp.onValues_puts hall (values k) with hsame | ⟨hne, hrest⟩
    · exact .inl hsame
    · exact .inr ⟨⟨hw, hne⟩, hrest⟩
  refine ⟨fun k hk v => ?_, fun k hk => ?_, fun k hk => ?_⟩ <;> rw [hlog]
  · rcases hk.of_concat with ⟨cell, hcell, -⟩ | ⟨hpinned, hnot⟩
    · rw [hcells] at hcell
      cases hcell
    · rcases hvalue k with hsame | ⟨hdropped, -, -⟩
      · rw [hsame]
        exact h.pinned k hpinned v
      · exact absurd hdropped hnot
  · rcases hvalue k with hsame | ⟨-, -, text, hstr⟩
    · rw [hsame]
      exact h.mild k hk.of_concat.1
    · rw [hstr]
      exact ⟨.inl ⟨text, rfl⟩, CellOp.onValues_str hk.of_concat.1.mild text⟩
  · obtain ⟨hnone, hrun⟩ := h.invalid k hk
    rcases hvalue k with hsame | ⟨-, hvalid, -⟩
    · rw [hsame]
      exact ⟨hnone, hrun⟩
    · exact absurd hvalid hk

end Daikon
