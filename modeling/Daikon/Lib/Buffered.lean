/-
# Lib.Buffered -- a buffered writer over a device that may fail

A writer gathers the pieces that are written to it and passes them down in blocks; when it is dropped it
passes down what is left. The device takes a block call by call, and a call may take less than it is
given, be interrupted or fail. Which blocks come down is known beforehand (`blocks`), and so is whether
the device takes them all (`takeAll`): a writer that is dropped leaves everything on the device exactly
if it does (`dropped_eq_iff`), and nobody hears of it if it does not.

The model is that of a writer with a buffer of fixed room: a piece that fits behind what waits is kept, one
that does not makes what waits go down first, and one at least as long as the whole buffer goes down by
itself. The blocks depend on the pieces alone and not on the device (`blocks`), which is why the question of
what survives can be asked of the device once, with all the blocks (`takeAll`), in the place of following
the writer through every call.

A device is a list of answers. One that says nothing more takes what it is given, so the list is only as
long as the trouble. `deliver_split` is the one fact about it that the rest needs: of a block, what was
taken and what was not make up the block.
-/
import Mathlib.Data.List.Basic

namespace Lib.Buffered

variable {α ε : Type*}

/-! ## The device -/

/-- What the device does with one call. -/
inductive WriteCall (ε : Type*) where
  /-- It takes at most so many bytes. -/
  | wrote (n : Nat)
  | interrupted
  | failed (e : ε)

/-- How far a block came: what was taken of it, what was not, and the calls that are still to come. -/
structure Delivery (α ε : Type*) where
  taken : List α
  rest : List α
  calls : List (WriteCall ε)
  error : Option ε

/-- A block goes down until it is taken whole. A call that takes nothing is an error, an interrupted one
is made again, and calls of which nothing is said take what they are given. -/
def deliver (zero : ε) : List (WriteCall ε) → List α → Delivery α ε
  | calls, [] => ⟨[], [], calls, none⟩
  | [], b :: block => ⟨b :: block, [], [], none⟩
  | .interrupted :: calls, b :: block => deliver zero calls (b :: block)
  | .failed e :: calls, b :: block => ⟨[], b :: block, calls, some e⟩
  | .wrote 0 :: calls, b :: block => ⟨[], b :: block, calls, some zero⟩
  | .wrote (n + 1) :: calls, b :: block =>
      let later := deliver zero calls (block.drop n)
      { later with taken := b :: block.take n ++ later.taken }

/-- The calls that are left when the device has taken a block of this length, if it takes it. -/
def take : List (WriteCall ε) → Nat → Option (List (WriteCall ε))
  | calls, 0 => some calls
  | [], _ + 1 => some []
  | .interrupted :: calls, length + 1 => take calls (length + 1)
  | .failed _ :: _, _ + 1 => none
  | .wrote 0 :: _, _ + 1 => none
  | .wrote (n + 1) :: calls, length + 1 => take calls (length - n)

/-- The same for blocks, one after the other. -/
def takeAll (calls : List (WriteCall ε)) (blocks : List (List α)) : Option (List (WriteCall ε)) :=
  blocks.foldlM (fun calls block => take calls block.length) calls

@[simp] theorem take_zero (calls : List (WriteCall ε)) : take calls 0 = some calls := by
  cases calls with
  | nil => rfl
  | cons call calls => cases call <;> rfl

theorem deliver_ok (zero : ε) (calls : List (WriteCall ε)) (block : List α) : ∀ calls',
    take calls block.length = some calls' → deliver zero calls block = ⟨block, [], calls', none⟩ := by
  fun_induction deliver zero calls block with
  | case1 calls =>
      intro calls' h
      rw [List.length_nil, take_zero, Option.some.injEq] at h
      rw [h]
  | case2 b block =>
      rintro calls' ⟨⟩
      rfl
  | case3 calls b block ih => exact ih
  | case4 e calls b block => intro calls' h; cases h
  | case5 calls b block => intro calls' h; cases h
  | case6 n calls b block later ih =>
      intro calls' h
      have hlater : later = ⟨block.drop n, [], calls', none⟩ := ih calls' (by rwa [List.length_drop])
      rw [hlater, List.cons_append, List.take_append_drop]

theorem deliver_failed (zero : ε) (calls : List (WriteCall ε)) (block : List α) :
    take calls block.length = none → (deliver zero calls block).error ≠ none ∧
      (deliver zero calls block).rest ≠ [] := by
  fun_induction deliver zero calls block with
  | case1 calls => intro h; rw [List.length_nil, take_zero] at h; cases h
  | case2 b block => intro h; cases h
  | case3 calls b block ih => exact ih
  | case4 e calls b block => exact fun _ => ⟨by simp, by simp⟩
  | case5 calls b block => exact fun _ => ⟨by simp, by simp⟩
  | case6 n calls b block later ih => exact fun h => ih (by rwa [List.length_drop])

/-- No byte of a block is lost or taken twice. -/
theorem deliver_split (zero : ε) (calls : List (WriteCall ε)) (block : List α) :
    (deliver zero calls block).taken ++ (deliver zero calls block).rest = block := by
  fun_induction deliver zero calls block with
  | case1 calls => rfl
  | case2 b block => simp
  | case3 calls b block ih => exact ih
  | case4 e calls b block => rfl
  | case5 calls b block => rfl
  | case6 n calls b block later ih =>
      have hlater : later.taken ++ later.rest = block.drop n := ih
      show b :: block.take n ++ later.taken ++ later.rest = b :: block
      rw [List.append_assoc, hlater, List.cons_append, List.take_append_drop]

theorem takeAll_append (calls : List (WriteCall ε)) (bs bs' : List (List α)) :
    takeAll calls (bs ++ bs') = (takeAll calls bs).bind fun calls => takeAll calls bs' := by
  unfold takeAll
  rw [List.foldlM_append]
  rfl

theorem takeAll_cons (calls : List (WriteCall ε)) (b : List α) (bs : List (List α)) :
    takeAll calls (b :: bs) = (take calls b.length).bind fun calls => takeAll calls bs := rfl

theorem takeAll_one (calls : List (WriteCall ε)) (b : List α) :
    takeAll calls [b] = take calls b.length := by
  rw [takeAll_cons]
  cases take calls b.length <;> rfl

/-! ## The writer -/

/-- How a writer is set up: the room of its buffer, and the errors of a call that takes nothing of the
buffer or of a piece. -/
structure Settings (ε : Type*) where
  capacity : Nat
  capacity_pos : 0 < capacity
  zeroBuffer : ε
  zeroPiece : ε

/-- What the device holds, what the buffer holds, and the calls to come. -/
structure BufWriter (α ε : Type*) where
  content : List α := []
  buf : List α := []
  calls : List (WriteCall ε)

namespace BufWriter

/-- All that was written and not lost. -/
def held (w : BufWriter α ε) : List α := w.content ++ w.buf

/-- What is not taken stays in the buffer. -/
def flushBuf (c : Settings ε) (w : BufWriter α ε) : Option ε × BufWriter α ε :=
  let d := deliver c.zeroBuffer w.calls w.buf
  (d.error, { content := w.content ++ d.taken, buf := d.rest, calls := d.calls })

/-- A piece that does not fit into the buffer at all. What is not taken of it is lost. -/
def writeThrough (c : Settings ε) (w : BufWriter α ε) (piece : List α) :
    Option ε × BufWriter α ε :=
  let d := deliver c.zeroPiece w.calls piece
  (d.error, { w with content := w.content ++ d.taken, calls := d.calls })

/-- Write a piece. One that does not fit behind what waits makes it go out first, and one that is as long as
the whole buffer goes straight through. -/
def write (c : Settings ε) (w : BufWriter α ε) (piece : List α) : Option ε × BufWriter α ε :=
  if piece.length < c.capacity - w.buf.length then (none, { w with buf := w.buf ++ piece })
  else
    match if c.capacity - w.buf.length < piece.length then w.flushBuf c else (none, w) with
    | (some e, w) => (some e, w)
    | (none, w) =>
        if c.capacity ≤ piece.length then w.writeThrough c piece
        else (none, { w with buf := w.buf ++ piece })

/-- Write the pieces up to the first error, and say how many went through. -/
def writeAll (c : Settings ε) : BufWriter α ε → List (List α) → Nat × Option ε × BufWriter α ε
  | w, [] => (0, none, w)
  | w, piece :: pieces =>
      match w.write c piece with
      | (some e, w) => (0, some e, w)
      | (none, w) => let (n, e, w) := writeAll c w pieces; (n + 1, e, w)

/-- What the device holds when the writer has been dropped. Nobody sees the error of the last flush. -/
def dropped (c : Settings ε) (w : BufWriter α ε) : List α := (w.flushBuf c).2.content

end BufWriter

/-! ## The blocks that come down -/

/-- The blocks that one piece sends down, and what the buffer then holds. -/
def sent (capacity : Nat) (buf piece : List α) : List (List α) × List α :=
  if piece.length < capacity - buf.length then ([], buf ++ piece)
  else if capacity - buf.length < piece.length then
    if capacity ≤ piece.length then ([buf, piece], []) else ([buf], piece)
  else if capacity ≤ piece.length then ([piece], buf) else ([], buf ++ piece)

/-- The blocks that a list of pieces sends down, and what the buffer then holds. -/
def blocks (capacity : Nat) : List α → List (List α) → List (List α) × List α
  | buf, [] => ([], buf)
  | buf, piece :: pieces =>
      ((sent capacity buf piece).1 ++ (blocks capacity (sent capacity buf piece).2 pieces).1,
        (blocks capacity (sent capacity buf piece).2 pieces).2)

/-- With the block of the last flush. -/
def allBlocks (capacity : Nat) (buf : List α) (pieces : List (List α)) : List (List α) :=
  (blocks capacity buf pieces).1 ++ [(blocks capacity buf pieces).2]

theorem blocks_append (capacity : Nat) (pieces pieces' : List (List α)) : ∀ buf : List α,
    blocks capacity buf (pieces ++ pieces')
      = ((blocks capacity buf pieces).1 ++ (blocks capacity (blocks capacity buf pieces).2 pieces').1,
          (blocks capacity (blocks capacity buf pieces).2 pieces').2) := by
  induction pieces with
  | nil => exact fun buf => rfl
  | cons piece pieces ih =>
      intro buf
      rw [List.cons_append, blocks, blocks, ih, List.append_assoc]

theorem allBlocks_append (capacity : Nat) (buf : List α) (pieces pieces' : List (List α)) :
    allBlocks capacity buf (pieces ++ pieces') = (blocks capacity buf pieces).1
      ++ allBlocks capacity (blocks capacity buf pieces).2 pieces' := by
  unfold allBlocks
  rw [blocks_append, List.append_assoc]

/-! ## What one piece does -/

namespace BufWriter

variable {c : Settings ε} {w : BufWriter α ε} {calls : List (WriteCall ε)}

theorem flushBuf_ok (h : take w.calls w.buf.length = some calls) :
    w.flushBuf c = (none, { content := w.held, buf := [], calls }) := by
  unfold flushBuf
  rw [deliver_ok c.zeroBuffer _ w.buf _ h]
  rfl

theorem flushBuf_held : (w.flushBuf c).2.held = w.held := by
  show w.content ++ (deliver c.zeroBuffer w.calls w.buf).taken
    ++ (deliver c.zeroBuffer w.calls w.buf).rest = w.content ++ w.buf
  rw [List.append_assoc, deliver_split]

theorem flushBuf_failed (h : take w.calls w.buf.length = none) :
    (w.flushBuf c).1 ≠ none ∧ (w.flushBuf c).2.content.length < w.held.length := by
  obtain ⟨herror, hrest⟩ := deliver_failed c.zeroBuffer _ w.buf h
  refine ⟨herror, ?_⟩
  have hheld := congrArg List.length (flushBuf_held (c := c) (w := w))
  have hleft : 0 < (w.flushBuf c).2.buf.length := List.length_pos_iff.mpr hrest
  rw [held, List.length_append] at hheld
  omega

theorem writeThrough_ok {piece : List α} (h : take w.calls piece.length = some calls) :
    w.writeThrough c piece = (none, { w with content := w.content ++ piece, calls }) := by
  unfold writeThrough
  rw [deliver_ok c.zeroPiece _ piece _ h]

theorem writeThrough_failed {piece : List α} (h : take w.calls piece.length = none) :
    (w.writeThrough c piece).1 ≠ none ∧
      (w.writeThrough c piece).2.held.length < w.held.length + piece.length := by
  obtain ⟨herror, hrest⟩ := deliver_failed c.zeroPiece _ piece h
  refine ⟨herror, ?_⟩
  have hsplit := congrArg List.length (deliver_split c.zeroPiece w.calls piece)
  have hleft := List.length_pos_iff.mpr hrest
  show (w.content ++ (deliver c.zeroPiece w.calls piece).taken ++ w.buf).length < _
  rw [List.length_append] at hsplit
  simp only [held, List.length_append]
  omega

/-- Where a piece does not go into the buffer as it is. -/
theorem write_down {piece : List α} (hroom : ¬ piece.length < c.capacity - w.buf.length) :
    w.write c piece = match if c.capacity - w.buf.length < piece.length then w.flushBuf c else (none, w) with
      | (some e, w) => (some e, w)
      | (none, w) =>
          if c.capacity ≤ piece.length then w.writeThrough c piece
          else (none, { w with buf := w.buf ++ piece }) := if_neg hroom

/-- A piece whose blocks are taken goes through. -/
theorem write_ok {piece : List α} (h : takeAll w.calls (sent c.capacity w.buf piece).1 = some calls) :
    ∃ w', w.write c piece = (none, w') ∧ w'.held = w.held ++ piece ∧
      w'.buf = (sent c.capacity w.buf piece).2 ∧ w'.calls = calls := by
  have hpos := c.capacity_pos
  unfold sent at h ⊢
  by_cases hroom : piece.length < c.capacity - w.buf.length
  · rw [if_pos hroom] at h ⊢
    cases h
    exact ⟨{ w with buf := w.buf ++ piece }, if_pos hroom, (List.append_assoc ..).symm, rfl, rfl⟩
  · rw [if_neg hroom] at h ⊢
    rw [write_down hroom]
    by_cases hover : c.capacity - w.buf.length < piece.length
    · rw [if_pos hover] at h ⊢
      rw [if_pos hover]
      by_cases hbig : c.capacity ≤ piece.length
      · -- the buffer is emptied, and the piece follows it
        rw [if_pos hbig, takeAll_cons] at h
        obtain ⟨calls₁, hflush, hpiece⟩ := Option.bind_eq_some_iff.mp h
        rw [takeAll_one] at hpiece
        rw [flushBuf_ok hflush, if_pos hbig]
        refine ⟨_, (if_pos hbig).trans (writeThrough_ok hpiece), ?_, rfl, rfl⟩
        exact List.append_nil _
      · rw [if_neg hbig, takeAll_one] at h
        rw [flushBuf_ok h, if_neg hbig]
        exact ⟨_, if_neg hbig, rfl, rfl, rfl⟩
    · rw [if_neg hover] at h ⊢
      rw [if_neg hover]
      by_cases hbig : c.capacity ≤ piece.length
      · -- there is nothing in the buffer
        have hempty : w.buf = [] := List.length_eq_zero_iff.mp (by omega)
        rw [if_pos hbig, takeAll_one] at h
        rw [if_pos hbig]
        refine ⟨_, (if_pos hbig).trans (writeThrough_ok h), ?_, rfl, rfl⟩
        simp only [held, hempty, List.append_nil]
      · rw [if_neg hbig] at h ⊢
        cases h
        exact ⟨{ w with buf := w.buf ++ piece }, if_neg hbig, (List.append_assoc ..).symm, rfl, rfl⟩

/-- A piece whose blocks are not taken is an error, and something of it is lost. -/
theorem write_failed {piece : List α} (h : takeAll w.calls (sent c.capacity w.buf piece).1 = none) :
    ∃ e w', w.write c piece = (some e, w') ∧ w'.held.length < w.held.length + piece.length := by
  have hlost : ∀ w₁ : BufWriter α ε, w₁.held = w.held → take w₁.calls piece.length = none →
      ∃ e w', w₁.writeThrough c piece = (some e, w') ∧ w'.held.length < w.held.length + piece.length := by
    intro w₁ hheld htake
    obtain ⟨herror, hless⟩ := writeThrough_failed (c := c) htake
    obtain ⟨e, he⟩ := Option.ne_none_iff_exists'.mp herror
    exact ⟨e, _, Prod.ext he rfl, hheld ▸ hless⟩
  unfold sent at h
  by_cases hroom : piece.length < c.capacity - w.buf.length
  · rw [if_pos hroom] at h
    cases h
  · rw [if_neg hroom] at h
    rw [write_down hroom]
    by_cases hover : c.capacity - w.buf.length < piece.length
    · rw [if_pos hover] at h ⊢
      cases hflush : take w.calls w.buf.length with
      | none =>
          -- the buffer stays as it is, and the piece is gone
          obtain ⟨herror, -⟩ := flushBuf_failed (c := c) hflush
          obtain ⟨e, he⟩ := Option.ne_none_iff_exists'.mp herror
          have hpair : w.flushBuf c = (some e, (w.flushBuf c).2) := Prod.ext he rfl
          refine ⟨e, (w.flushBuf c).2, by rw [hpair], ?_⟩
          rw [flushBuf_held]
          omega
      | some calls₁ =>
          rw [flushBuf_ok hflush]
          by_cases hbig : c.capacity ≤ piece.length
          · rw [if_pos hbig, takeAll_cons, hflush, Option.bind_some, takeAll_one] at h
            obtain ⟨e, w', hw', hless⟩ := hlost { content := w.held, buf := [], calls := calls₁ }
              (List.append_nil _) h
            exact ⟨e, w', (if_pos hbig).trans hw', hless⟩
          · rw [if_neg hbig, takeAll_one, hflush] at h
            cases h
    · rw [if_neg hover] at h ⊢
      by_cases hbig : c.capacity ≤ piece.length
      · rw [if_pos hbig, takeAll_one] at h
        obtain ⟨e, w', hw', hless⟩ := hlost w rfl h
        exact ⟨e, w', (if_pos hbig).trans hw', hless⟩
      · rw [if_neg hbig] at h
        cases h

/-! ## What a list of pieces does -/

theorem writeAll_ok (pieces : List (List α)) : ∀ {w : BufWriter α ε} {calls : List (WriteCall ε)},
    takeAll w.calls (blocks c.capacity w.buf pieces).1 = some calls →
      ∃ w', w.writeAll c pieces = (pieces.length, none, w') ∧ w'.held = w.held ++ pieces.flatten ∧
        w'.buf = (blocks c.capacity w.buf pieces).2 ∧ w'.calls = calls := by
  induction pieces with
  | nil =>
      rintro w calls ⟨⟩
      exact ⟨w, rfl, (List.append_nil _).symm, rfl, rfl⟩
  | cons piece pieces ih =>
      intro w calls h
      rw [blocks, takeAll_append] at h
      obtain ⟨calls₁, hfirst, hrest⟩ := Option.bind_eq_some_iff.mp h
      obtain ⟨w₁, hw₁, hheld₁, hbuf₁, rfl⟩ := write_ok hfirst
      rw [← hbuf₁] at hrest
      obtain ⟨w', hw', hheld, hbuf, hcalls⟩ := ih hrest
      refine ⟨w', ?_, ?_, ?_, hcalls⟩
      · rw [writeAll, hw₁]
        simp only [hw', List.length_cons]
      · rw [hheld, hheld₁, List.flatten_cons, List.append_assoc]
      · rw [hbuf, hbuf₁, blocks]

theorem writeAll_failed (pieces : List (List α)) : ∀ {w : BufWriter α ε},
    takeAll w.calls (blocks c.capacity w.buf pieces).1 = none →
      ∃ n e w', w.writeAll c pieces = (n, some e, w') ∧
        w'.held.length < w.held.length + pieces.flatten.length := by
  induction pieces with
  | nil => intro w h; cases h
  | cons piece pieces ih =>
      intro w h
      rw [blocks, takeAll_append] at h
      rw [writeAll, List.flatten_cons, List.length_append]
      cases hfirst : takeAll w.calls (sent c.capacity w.buf piece).1 with
      | none =>
          obtain ⟨e, w', hw', hless⟩ := write_failed hfirst
          exact ⟨0, e, w', by rw [hw'], by omega⟩
      | some calls₁ =>
          obtain ⟨w₁, hw₁, hheld₁, hbuf₁, rfl⟩ := write_ok hfirst
          rw [hfirst, Option.bind_some, ← hbuf₁] at h
          obtain ⟨n, e, w', hw', hless⟩ := ih h
          refine ⟨n + 1, e, w', by rw [hw₁]; simp only [hw'], ?_⟩
          rw [hheld₁, List.length_append] at hless
          omega

/-- No more than was held comes to the device when the writer is dropped. -/
theorem dropped_length_le (w : BufWriter α ε) : (w.dropped c).length ≤ w.held.length := by
  have hheld := congrArg List.length (flushBuf_held (c := c) (w := w))
  rw [held, List.length_append] at hheld
  unfold dropped
  omega

/-- Pieces, written up to the first error to a writer that is then dropped, are all on the device if and
only if it takes all the blocks. -/
theorem dropped_eq_iff (w : BufWriter α ε) (pieces : List (List α)) :
    (w.writeAll c pieces).2.2.dropped c = w.held ++ pieces.flatten ↔
      takeAll w.calls (allBlocks c.capacity w.buf pieces) ≠ none := by
  have hshort : ∀ {bytes : List α}, bytes.length < w.held.length + pieces.flatten.length →
      bytes ≠ w.held ++ pieces.flatten := by
    rintro bytes hless rfl
    rw [List.length_append] at hless
    omega
  unfold allBlocks
  rw [takeAll_append]
  cases hpieces : takeAll w.calls (blocks c.capacity w.buf pieces).1 with
  | none =>
      obtain ⟨n, e, w', hw', hless⟩ := writeAll_failed pieces hpieces
      rw [hw']
      exact iff_of_false (hshort (Nat.lt_of_le_of_lt (dropped_length_le w') hless)) fun h => h rfl
  | some calls =>
      obtain ⟨w', hw', hheld, hbuf, rfl⟩ := writeAll_ok pieces hpieces
      rw [hw', Option.bind_some, takeAll_one, ← hbuf, ← hheld]
      cases hlast : take w'.calls w'.buf.length with
      | none =>
          have hless := (flushBuf_failed (c := c) hlast).2
          refine iff_of_false (fun heq => ?_) fun h => h rfl
          rw [← heq] at hless
          exact Nat.lt_irrefl _ hless
      | some calls' =>
          refine iff_of_true ?_ (by simp)
          show (w'.flushBuf c).2.content = w'.held
          rw [flushBuf_ok hlast]

/-- The same where some pieces are written first, without an error, and others after them. -/
theorem dropped_append_eq_iff {pieces pieces' : List (List α)}
    (h : takeAll w.calls (blocks c.capacity w.buf pieces).1 ≠ none) :
    ((w.writeAll c pieces).2.2.writeAll c pieces').2.2.dropped c = w.held ++ (pieces ++ pieces').flatten ↔
      takeAll w.calls (allBlocks c.capacity w.buf (pieces ++ pieces')) ≠ none := by
  obtain ⟨calls, hcalls⟩ := Option.ne_none_iff_exists'.mp h
  obtain ⟨w', hw', hheld, hbuf, rfl⟩ := writeAll_ok pieces hcalls
  rw [hw', allBlocks_append, takeAll_append, hcalls, Option.bind_some, ← hbuf, List.flatten_append,
    ← List.append_assoc, ← hheld]
  exact dropped_eq_iff w' pieces'

theorem writeAll_error_iff (pieces : List (List α)) : (w.writeAll c pieces).2.1 = none ↔
    takeAll w.calls (blocks c.capacity w.buf pieces).1 ≠ none := by
  cases hcalls : takeAll w.calls (blocks c.capacity w.buf pieces).1 with
  | none =>
      obtain ⟨n, e, w', hw', -⟩ := writeAll_failed pieces hcalls
      rw [hw']
      exact iff_of_false (by simp) fun h => h rfl
  | some calls =>
      obtain ⟨w', hw', -⟩ := writeAll_ok pieces hcalls
      rw [hw']
      exact iff_of_true rfl (by simp)

theorem writeAll_count {pieces : List (List α)} (h : (w.writeAll c pieces).2.1 = none) :
    (w.writeAll c pieces).1 = pieces.length := by
  obtain ⟨calls, hcalls⟩ := Option.ne_none_iff_exists'.mp ((writeAll_error_iff pieces).mp h)
  obtain ⟨w', hw', -⟩ := writeAll_ok pieces hcalls
  rw [hw']

/-! ## What is on the device is a beginning of what was written -/

theorem writeThrough_begins (hempty : w.buf = []) (piece : List α) :
    (w.writeThrough c piece).2.held <+: w.held ++ piece := by
  have hsplit := deliver_split c.zeroPiece w.calls piece
  refine ⟨(deliver c.zeroPiece w.calls piece).rest, ?_⟩
  show w.content ++ (deliver c.zeroPiece w.calls piece).taken ++ w.buf
    ++ (deliver c.zeroPiece w.calls piece).rest = w.content ++ w.buf ++ piece
  rw [hempty, List.append_nil, List.append_nil, List.append_assoc, hsplit]

theorem write_begins (piece : List α) : (w.write c piece).2.held <+: w.held ++ piece := by
  have hpos := c.capacity_pos
  by_cases hroom : piece.length < c.capacity - w.buf.length
  · rw [show w.write c piece = (none, { w with buf := w.buf ++ piece }) from if_pos hroom]
    exact List.append_assoc w.content w.buf piece ▸ List.prefix_rfl
  · rw [write_down hroom]
    by_cases hover : c.capacity - w.buf.length < piece.length
    · rw [if_pos hover]
      cases hflush : take w.calls w.buf.length with
      | none =>
          obtain ⟨e, he⟩ := Option.ne_none_iff_exists'.mp (flushBuf_failed (c := c) hflush).1
          rw [show w.flushBuf c = (some e, (w.flushBuf c).2) from Prod.ext he rfl]
          show (w.flushBuf c).2.held <+: _
          rw [flushBuf_held]
          exact List.prefix_append _ _
      | some calls₁ =>
          rw [flushBuf_ok hflush]
          by_cases hbig : c.capacity ≤ piece.length
          · simp only [if_pos hbig]
            have hthrough := writeThrough_begins (c := c) (w := ⟨w.held, [], calls₁⟩) rfl piece
            rwa [show held ⟨w.held, [], calls₁⟩ = w.held from List.append_nil _] at hthrough
          · simp only [if_neg hbig]
            exact List.prefix_rfl
    · rw [if_neg hover]
      by_cases hbig : c.capacity ≤ piece.length
      · simp only [if_pos hbig]
        exact writeThrough_begins (List.length_eq_zero_iff.mp (by omega)) piece
      · simp only [if_neg hbig]
        exact List.append_assoc w.content w.buf piece ▸ List.prefix_rfl

theorem writeAll_begins (pieces : List (List α)) : ∀ w : BufWriter α ε,
    (w.writeAll c pieces).2.2.held <+: w.held ++ pieces.flatten := by
  induction pieces with
  | nil => exact fun w => List.prefix_append _ _
  | cons piece pieces ih =>
      intro w
      have hfirst := write_begins (c := c) (w := w) piece
      rw [writeAll, List.flatten_cons, ← List.append_assoc]
      cases hcalls : takeAll w.calls (sent c.capacity w.buf piece).1 with
      | none =>
          obtain ⟨e, w', hw', -⟩ := write_failed (c := c) hcalls
          rw [hw'] at hfirst ⊢
          exact hfirst.trans (List.prefix_append _ _)
      | some calls₁ =>
          obtain ⟨w₁, hw₁, hheld₁, -, -⟩ := write_ok hcalls
          have hrest := ih w₁
          rw [hheld₁] at hrest
          rw [hw₁]
          exact hrest

theorem dropped_begins (w : BufWriter α ε) : w.dropped c <+: w.held := by
  have hheld := flushBuf_held (c := c) (w := w)
  exact ⟨(w.flushBuf c).2.buf, hheld⟩

end BufWriter

end Lib.Buffered
