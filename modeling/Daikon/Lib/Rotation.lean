/-
# Lib.Rotation -- the newest versions, under names that may be taken

A store of versions: a new one replaces the version of its own name, and of what is there the last `max`
stay. Two versions under one name are one, so it is the newest versions that are kept exactly where their
names differ (`run_eq_rtake`, `run_perm_iff`).

Names are given by a function of the version, which makes clear that it is the name of the new version that
decides whether an old one goes, and nothing else. In a directory the name comes from a clock, and two
versions of one reading of the clock are the case in which one of them is lost without being among the
oldest.

`run_perm_iff` is the form for directories, which are not ordered: what is there, in some order, is the
newest versions exactly if no two of them had one name.
-/
import Mathlib.Data.List.DropRight
import Mathlib.Data.List.Nodup

namespace Lib.Rotation

variable {α κ β : Type*} [DecidableEq κ] {name : α → κ} {max : Nat}

/-- Keep a new version. One of the same name makes way for it, and so does the oldest if there are too many.
-/
def put (name : α → κ) (max : Nat) (kept : List α) (a : α) : List α :=
  (kept.filter (fun b => name b ≠ name a) ++ [a]).rtake max

/-- The versions kept of a list of them. -/
def run (name : α → κ) (max : Nat) (versions : List α) : List α := versions.foldl (put name max) []

theorem rtake_suffix (l : List β) (n : Nat) : l.rtake n <:+ l := List.drop_suffix _ l

theorem length_rtake (l : List β) (n : Nat) : (l.rtake n).length = min n l.length := by
  rw [List.rtake.eq_def, List.length_drop]
  omega

theorem map_rtake (f : α → β) (l : List α) (n : Nat) : (l.rtake n).map f = (l.map f).rtake n := by
  rw [List.rtake.eq_def, List.rtake.eq_def, List.map_drop, List.length_map]

/-! ## What is kept is among the versions, under different names -/

theorem put_sublist (kept : List α) (a : α) : (put name max kept a).Sublist (kept ++ [a]) :=
  (rtake_suffix _ _).sublist.trans (List.filter_sublist.append (.refl _))

theorem length_put_le (kept : List α) (a : α) : (put name max kept a).length ≤ max := by
  rw [put, length_rtake]
  exact Nat.min_le_left _ _

theorem put_nodup {kept : List α} (h : (kept.map name).Nodup) (a : α) :
    ((put name max kept a).map name).Nodup := by
  refine List.Nodup.sublist ((rtake_suffix _ _).sublist.map name) ?_
  rw [List.map_append, List.map_singleton, List.nodup_append]
  refine ⟨h.sublist (List.filter_sublist.map name), List.nodup_singleton _, ?_⟩
  rintro n hn n' hn' rfl
  obtain ⟨b, hb, rfl⟩ := List.mem_map.mp hn
  exact of_decide_eq_true (List.mem_filter.mp hb).2 (List.mem_singleton.mp hn')

theorem run_append_singleton (versions : List α) (a : α) :
    run name max (versions ++ [a]) = put name max (run name max versions) a := List.foldl_append

theorem run_sublist (versions : List α) : (run name max versions).Sublist versions := by
  induction versions using List.reverseRecOn with
  | nil => exact .refl _
  | append_singleton versions a ih =>
      rw [run_append_singleton]
      exact (put_sublist _ a).trans (ih.append (.refl _))

theorem run_nodup (versions : List α) : ((run name max versions).map name).Nodup := by
  induction versions using List.reverseRecOn with
  | nil => exact List.nodup_nil
  | append_singleton versions a ih =>
      rw [run_append_singleton]
      exact put_nodup ih a

theorem length_run_le (versions : List α) : (run name max versions).length ≤ max := by
  cases versions using List.reverseRecOn with
  | nil => exact Nat.zero_le _
  | append_singleton versions a =>
      rw [run_append_singleton]
      exact length_put_le _ a

/-! ## The newest are kept where their names differ -/

/-- The last versions of a run are its end, if they are no more than `max` under different names: each
comes in behind the ones before it, and replaces none of them. -/
theorem suffix_run (older : List α) {newest : List α} (hnames : (newest.map name).Nodup)
    (hmax : newest.length ≤ max) : newest <:+ run name max (older ++ newest) := by
  induction newest using List.reverseRecOn with
  | nil => exact List.nil_suffix
  | append_singleton newest a ih =>
      rw [List.map_append, List.map_singleton, List.nodup_append] at hnames
      obtain ⟨hnewest, -, hother⟩ := hnames
      rw [List.length_append, List.length_singleton] at hmax
      obtain ⟨rest, hrest⟩ := ih hnewest (Nat.le_of_succ_le hmax)
      have hkept : newest.filter (fun b => name b ≠ name a) = newest :=
        List.filter_eq_self.mpr fun b hb =>
          decide_eq_true (hother _ (List.mem_map_of_mem hb) _ (List.mem_singleton_self _))
      rw [← List.append_assoc, run_append_singleton, put, ← hrest, List.filter_append, hkept]
      refine List.suffix_of_suffix_length_le ⟨rest.filter (fun b => name b ≠ name a), ?_⟩
        (rtake_suffix _ _) ?_
      · rw [List.append_assoc]
      · rw [length_rtake, List.length_append, List.length_append, List.length_append,
          List.length_singleton]
        omega

theorem run_eq_rtake {versions : List α} (h : ((versions.rtake max).map name).Nodup) :
    run name max versions = versions.rtake max := by
  have hlength := length_rtake versions max
  have hsuffix := suffix_run (versions.take (versions.length - max)) h
    (hlength.trans_le (Nat.min_le_left _ _))
  rw [show versions.take (versions.length - max) ++ versions.rtake max = versions from
    List.take_append_drop _ _] at hsuffix
  refine (hsuffix.eq_of_length_le ?_).symm
  rw [hlength, Nat.le_min]
  exact ⟨length_run_le versions, (run_sublist versions).length_le⟩

/-- Told by what the versions hold, where no two hold the same. -/
theorem run_perm_iff {versions : List α} {value : α → β} (hvalue : (versions.map value).Nodup) :
    ((run name max versions).map value).Perm ((versions.rtake max).map value) ↔
      ((versions.rtake max).map name).Nodup := by
  constructor
  · intro hperm
    have hinj := List.inj_on_of_nodup_map hvalue
    have hkept : (run name max versions).Nodup := (run_nodup versions).of_map name
    have hnewest : (versions.rtake max).Nodup :=
      (hvalue.of_map value).sublist (rtake_suffix _ _).sublist
    have hsame : (run name max versions).Perm (versions.rtake max) := by
      refine (List.perm_ext_iff_of_nodup hkept hnewest).mpr fun a => ?_
      constructor
      · intro ha
        obtain ⟨b, hb, heq⟩ := List.mem_map.mp (hperm.mem_iff.mp (List.mem_map_of_mem ha))
        exact hinj ((rtake_suffix _ _).subset hb) ((run_sublist _).subset ha) heq ▸ hb
      · intro ha
        obtain ⟨b, hb, heq⟩ := List.mem_map.mp (hperm.mem_iff.mpr (List.mem_map_of_mem ha))
        exact hinj ((run_sublist _).subset hb) ((rtake_suffix _ _).subset ha) heq ▸ hb
    exact (hsame.map name).nodup_iff.mp (run_nodup versions)
  · intro hnames
    rw [run_eq_rtake hnames]

end Lib.Rotation
