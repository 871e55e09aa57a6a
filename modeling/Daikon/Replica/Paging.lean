/-
# Daikon.Replica.Paging -- reading the master's log in pages (`replication.rs`)

`get_wal_entries` takes its position and its limit from the query string and adds them. Where the sum
does not fit a machine word, a build with overflow checks stops at the addition; the release build
wraps around to a slice that ends before it starts, and stops there. Everywhere else a page is what it
should be (`page_exact_iff`), and so are successive pages (`readPages_exact_iff`).

The length of the log is taken below 2^63, which no log in memory reaches: the position itself is not the
trouble then, only the addition of a limit from the query string. The condition goes by the position, the
limit and the length, not by what the page turns out to be.

The second half is about a client that reads page after page, each from where the last one ended, with a
limit of its own for every page. As many pages with positive limits as there are entries ask for the whole
log. A replica asks for pages of a hundred, and is answered (`getWalEntries_hundred`) unless its position is
within a hundred of the last machine word.
-/
import Daikon.Replica.Master
import Daikon.Replica.State

namespace Daikon

/-- The position is behind the log, or the limit can be added to it. -/
def PageFits (len fromIndex limit : Nat) : Prop := len ≤ fromIndex ∨ fromIndex + limit < 2 ^ 64

instance (len fromIndex limit : Nat) : Decidable (PageFits len fromIndex limit) :=
  inferInstanceAs (Decidable (_ ∨ _))

section

variable {entries : List WalEntry} {fromIndex limit : UInt64}

theorem getWalEntries_page (h : PageFits entries.length fromIndex.toNat limit.toNat) :
    ReplicationMaster.getWalEntries (.ok entries) fromIndex limit
      = some (.ok ((entries.drop fromIndex.toNat).take limit.toNat)) := by
  unfold ReplicationMaster.getWalEntries
  simp only [UInt64.ofNat_toNat]
  split
  · next hbehind => rw [List.drop_eq_nil_of_le hbehind, List.take_nil]
  · next hinside =>
      have hsum : fromIndex.toNat + limit.toNat < 2 ^ 64 := h.resolve_left hinside
      rw [UInt64.toNat_add, Nat.mod_eq_of_lt hsum, if_pos (by omega), List.drop_take]
      congr 2
      rw [List.take_eq_take_iff, List.length_drop]
      omega

theorem getWalEntries_panics (h : ¬ PageFits entries.length fromIndex.toNat limit.toNat) :
    ReplicationMaster.getWalEntries (.ok entries) fromIndex limit = none := by
  unfold PageFits at h
  have hfrom := fromIndex.toNat_lt
  have hlimit := limit.toNat_lt
  unfold ReplicationMaster.getWalEntries
  simp only [UInt64.ofNat_toNat]
  rw [if_neg (by omega), UInt64.toNat_add, if_neg (by omega)]

/-- A page is the entries from the position on, up to the limit, if it does not panic. -/
theorem page_exact_iff : ReplicationMaster.getWalEntries (.ok entries) fromIndex limit
      = some (.ok ((entries.drop fromIndex.toNat).take limit.toNat)) ↔
    PageFits entries.length fromIndex.toNat limit.toNat := by
  refine ⟨fun h => ?_, getWalEntries_page⟩
  by_contra hnot
  rw [getWalEntries_panics hnot] at h
  cases h

/-- What a replica asks for is a page of a hundred; it gets it, or the handler panics. -/
theorem getWalEntries_hundred {position : Nat} (hposition : position < 2 ^ 64) :
    ReplicationMaster.getWalEntries (.ok entries) (UInt64.ofNat position) 100
      = if PageFits entries.length position 100 then some (.ok (getWalEntries entries position 100))
        else none := by
  have hsmall : (UInt64.ofNat position).toNat = position := UInt64.toNat_ofNat_of_lt' hposition
  split
  · next hfits =>
      rw [getWalEntries_page (by rw [hsmall]; exact hfits), hsmall]
      unfold getWalEntries
      split
      · next hbehind => rw [List.drop_eq_nil_of_le hbehind, List.take_nil]
      · rfl
  · next hfits => exact getWalEntries_panics (by rw [hsmall]; exact hfits)

end

/-! ## Successive pages -/

/-- A client that reads page after page, each from where the last one ended; none if a page panics. -/
def readPages (entries : List WalEntry) : Nat → List UInt64 → Option (List WalEntry)
  | _, [] => some []
  | position, limit :: limits =>
      match ReplicationMaster.getWalEntries (.ok entries) (UInt64.ofNat position) limit with
      | some (.ok page) => (readPages entries (position + page.length) limits).map (page ++ ·)
      | _ => none

/-- Every page fits, counted from the limits before it. -/
def PagesFit (len : Nat) : Nat → List UInt64 → Prop
  | _, [] => True
  | asked, limit :: limits => PageFits len asked limit.toNat ∧ PagesFit len (asked + limit.toNat) limits

/-- The entries that the limits ask for. -/
def askedFor (limits : List UInt64) : Nat := (limits.map UInt64.toNat).sum

theorem readPages_cases {entries : List WalEntry} (hlen : entries.length < 2 ^ 63)
    (limits : List UInt64) : ∀ asked,
      (PagesFit entries.length asked limits ∧ readPages entries (min asked entries.length) limits
        = some ((entries.drop asked).take (askedFor limits))) ∨
      (¬ PagesFit entries.length asked limits ∧
        readPages entries (min asked entries.length) limits = none) := by
  induction limits with
  | nil => intro asked; exact .inl ⟨trivial, by simp [readPages, askedFor]⟩
  | cons limit limits ih =>
      intro asked
      -- the client stands where its limits add up to, or at the end of the log
      have hposition : (UInt64.ofNat (min asked entries.length)).toNat = min asked entries.length :=
        UInt64.toNat_ofNat_of_lt' (by show _ < 2 ^ 64; omega)
      have hfits : PageFits entries.length (min asked entries.length) limit.toNat ↔
          PageFits entries.length asked limit.toNat := by
        unfold PageFits
        have := limit.toNat_lt
        omega
      have hdrop : entries.drop (min asked entries.length) = entries.drop asked := by
        rcases Nat.le_total asked entries.length with h | h
        · rw [Nat.min_eq_left h]
        · rw [Nat.min_eq_right h, List.drop_length, List.drop_eq_nil_of_le h]
      rw [readPages, PagesFit]
      by_cases hpage : PageFits entries.length asked limit.toNat
      · rw [getWalEntries_page (by rw [hposition]; exact hfits.mpr hpage), hposition, hdrop]
        simp only [hpage, true_and]
        have hnext : min asked entries.length + ((entries.drop asked).take limit.toNat).length
            = min (asked + limit.toNat) entries.length := by
          rw [List.length_take, List.length_drop]
          omega
        rw [hnext]
        rcases ih (asked + limit.toNat) with ⟨hrest, hread⟩ | ⟨hrest, hread⟩
        · refine .inl ⟨hrest, ?_⟩
          rw [hread, Option.map_some, ← List.drop_drop, ← List.take_add]
          rfl
        · exact .inr ⟨hrest, by rw [hread]; rfl⟩
      · refine .inr ⟨fun h => hpage h.1, ?_⟩
        rw [getWalEntries_panics (by rw [hposition]; exact fun h => hpage (hfits.mp h))]

/-- As many pages with positive limits as the log has entries ask for all of it. -/
theorem length_le_askedFor {limits : List UInt64} (hpos : ∀ limit ∈ limits, 0 < limit) :
    limits.length ≤ askedFor limits := by
  induction limits with
  | nil => exact Nat.zero_le _
  | cons limit limits ih =>
      have hfirst : 0 < limit.toNat := UInt64.lt_iff_toNat_lt.mp (hpos limit List.mem_cons_self)
      have hrest := ih fun l hl => hpos l (List.mem_cons_of_mem _ hl)
      show limits.length + 1 ≤ (limit.toNat :: limits.map UInt64.toNat).sum
      rw [List.sum_cons]
      unfold askedFor at hrest
      omega

/-- A page is exact if and only if its limit can be added to its position, or the position is behind
the log; and so are successive pages, which with positive limits come to the whole log. -/
theorem paged_reads_iff (entries : List WalEntry) (hlen : entries.length < 2 ^ 63) :
    (∀ fromIndex limit, ReplicationMaster.getWalEntries (.ok entries) fromIndex limit
        = some (.ok ((entries.drop fromIndex.toNat).take limit.toNat)) ↔
      PageFits entries.length fromIndex.toNat limit.toNat) ∧
    (∀ limits, readPages entries 0 limits = some (entries.take (askedFor limits)) ↔
      PagesFit entries.length 0 limits) ∧
    ∀ limits : List UInt64, (∀ limit ∈ limits, 0 < limit) → entries.length ≤ limits.length →
      entries.take (askedFor limits) = entries := by
  refine ⟨fun fromIndex limit => page_exact_iff, fun limits => ?_, fun limits hpos hmany => ?_⟩
  · have hcases := readPages_cases hlen limits 0
    rw [Nat.zero_min, List.drop_zero] at hcases
    rcases hcases with ⟨hfit, hread⟩ | ⟨hfit, hread⟩
    · exact iff_of_true hread hfit
    · rw [hread]
      exact iff_of_false (fun h => by cases h) hfit
  · have := length_le_askedFor hpos
    exact List.take_of_length_le (by omega)

/-- A log of two entries. -/
def twoEntries : List WalEntry := [.new 1 (.set "a" "1" none), .new 2 (.set "b" "2" none)]

theorem paged_reads_iff_second : ReplicationMaster.getWalEntries (.ok twoEntries) 1 5
    = some (.ok [.new 2 (.set "b" "2" none)]) :=
  ((paged_reads_iff twoEntries (by decide)).1 1 5).mpr (.inr (by decide))

/-- The largest limit, from the second entry on: a client reads no gap, it reads nothing. -/
theorem largest_limit_panics :
    ReplicationMaster.getWalEntries (.ok twoEntries) 1 18446744073709551615 = none ∧
      readPages twoEntries 0 [1, 18446744073709551615] = none := by decide

end Daikon
