import Ece391Os.Properties.Listing

/-!
# Lookup by name

`read_dentry_by_name` compares the 32 bytes of a name field with a request whose length it has
tested on both sides. `readDentryByNameInto_exact` says that the comparison is equality of the two
texts, that the first entry with the requested name is copied out, and that a refused request leaves
the caller's entry alone.
-/

set_option autoImplicit false

namespace Ece391Os

section Lookup

variable {img : FsImage} {w : CString} {dentry : DirEntry}

/-- The loop copies out the first entry that passes the test, from the slot it has reached. -/
theorem dentryLoop_eq (rem i : Nat) :
    dentryLoop img w dentry rem i =
      ((List.range' i rem).find? fun q => (img.dirEntries q).matches w).elim (-1, dentry)
        fun q => (0, img.dirEntries q) := by
  induction rem generalizing i with
  | zero => rfl
  | succ rem ih =>
      rw [dentryLoop, List.range'_succ, List.find?_cons, DirEntry.matches]
      by_cases hempty : (img.dirEntries i).filename 0 = 0
      · rw [if_pos hempty, ih]
        simp only [hempty, ne_eq, not_true_eq_false, decide_false, Bool.false_and]
      · rw [if_neg hempty]
        by_cases hsame : strncmp (img.dirEntries i).filename w.charAt filenameSize = 0
        · rw [if_pos hsame]
          simp only [hempty, hsame, ne_eq, not_false_eq_true, decide_true, Bool.and_self,
            Option.elim_some]
        · rw [if_neg hsame, ih]
          simp only [hsame, decide_false, Bool.and_false]

/-- The call that the open functions make, with both of its results. -/
theorem readDentryByNameInto_eq :
    readDentryByNameInto img w dentry =
      (readDentryByName img w).elim (-1, dentry) fun d => (0, d) := by
  rw [readDentryByNameInto, readDentryByName]
  split
  · rfl
  · split
    · rfl
    · rw [dentryLoop_eq, List.range_eq_range']
      cases (List.range' 0 maxDirEntries).find? fun q => (img.dirEntries q).matches w <;> rfl

/-- Slot `q` is the first one whose name is the requested text. -/
structure FirstNamed (img : FsImage) (text : List UInt8) (q : Nat) : Prop where
  lt : q < maxDirEntries
  name : (img.dirEntries q).name = text
  first : ∀ p, p < q → (img.dirEntries p).name ≠ text

/-- An entry with a text for its name has a name. -/
theorem filename_ne_zero_of_name {d : DirEntry} (hname : d.name = w.text)
    (hpos : 1 ≤ w.text.length) : d.filename 0 ≠ 0 := by
  have hlen : 0 < (PaddedText.read 0 filenameSize d.filename).length := by
    change 0 < d.name.length
    rw [hname]
    exact hpos
  exact (PaddedText.length_read_iff.mp rfl).2.1 0 hlen

/-- On a request of 1 to 32 characters the test of an entry compares the texts. -/
theorem matches_iff_name (hpos : 1 ≤ w.text.length) (hle : w.text.length ≤ 32) (d : DirEntry) :
    d.matches w = true ↔ d.name = w.text := by
  rw [matches_iff (by rw [CString.strlen_eq_length_text]; exact hle)]
  exact ⟨fun h => h.2, fun h => ⟨filename_ne_zero_of_name h hpos, h⟩⟩

/-- What the lookup finds is the first entry with the requested name. -/
theorem readDentryByName_eq_some_iff {d : DirEntry} :
    readDentryByName img w = some d ↔ 1 ≤ w.text.length ∧ w.text.length ≤ 32 ∧
      ∃ q, FirstNamed img w.text q ∧ d = img.dirEntries q := by
  rw [readDentryByName, CString.strlen_eq_length_text]
  split
  next hzero =>
    constructor
    · intro h
      cases h
    · rintro ⟨hpos, -⟩
      omega
  next hpos =>
    have hpos : 1 ≤ w.text.length := by omega
    split
    next hlong =>
      constructor
      · intro h
        cases h
      · rintro ⟨-, hle, -⟩
        omega
    next hle =>
      have hle : w.text.length ≤ 32 := by omega
      have htest := matches_iff_name hpos hle
      rw [Option.map_eq_some_iff]
      constructor
      · rintro ⟨q, hq, rfl⟩
        obtain ⟨hmatch, hlt, hfirst⟩ := List.find?_range_eq_some.mp hq
        refine ⟨hpos, hle, q, ⟨List.mem_range.mp hlt, (htest _).mp hmatch, ?_⟩, rfl⟩
        intro p hp hname
        have hmiss := hfirst p hp
        rw [(htest _).mpr hname] at hmiss
        cases hmiss
      · rintro ⟨-, -, q, hq, rfl⟩
        refine ⟨q, List.find?_range_eq_some.mpr
          ⟨(htest _).mpr hq.name, List.mem_range.mpr hq.lt, ?_⟩, rfl⟩
        intro p hp
        rw [Bool.not_eq_true']
        exact Bool.eq_false_iff.mpr fun hmatch => hq.first p hp ((htest _).mp hmatch)

/-- If some entry has the name, there is a first one. -/
theorem exists_firstNamed {text : List UInt8} {q : Nat} (hlt : q < maxDirEntries)
    (hname : (img.dirEntries q).name = text) : ∃ p, FirstNamed img text p := by
  have hex : ∃ q, (img.dirEntries q).name = text := ⟨q, hname⟩
  exact ⟨Nat.find hex, (Nat.find_min' hex hname).trans_lt hlt, Nat.find_spec hex,
    fun p hp => Nat.find_min hex hp⟩

end Lookup

/-- A lookup succeeds exactly on a request of 1 to 32 characters that is the name of an entry. It
then copies out the first such entry, and otherwise returns `-1` and leaves `dentry` unchanged. -/
theorem readDentryByNameInto_exact (img : FsImage) (w : CString) (dentry : DirEntry) :
    ((readDentryByNameInto img w dentry).1 = 0 ↔
        (1 ≤ w.text.length ∧ w.text.length ≤ 32) ∧
          ∃ q, q < maxDirEntries ∧ (img.dirEntries q).name = w.text) ∧
      ((readDentryByNameInto img w dentry).1 = 0 →
        ∃ q, FirstNamed img w.text q ∧
          (readDentryByNameInto img w dentry).2 = img.dirEntries q) ∧
      ((readDentryByNameInto img w dentry).1 ≠ 0 →
        readDentryByNameInto img w dentry = (-1, dentry)) := by
  rw [readDentryByNameInto_eq]
  cases hfound : readDentryByName img w with
  | none =>
      have hnot : ¬ ((1 ≤ w.text.length ∧ w.text.length ≤ 32) ∧
          ∃ q, q < maxDirEntries ∧ (img.dirEntries q).name = w.text) := by
        rintro ⟨⟨hpos, hle⟩, q, hlt, hname⟩
        obtain ⟨p, hp⟩ := exists_firstNamed hlt hname
        rw [readDentryByName_eq_some_iff.mpr ⟨hpos, hle, p, hp, rfl⟩] at hfound
        cases hfound
      have hfail : (-1 : Int) ≠ 0 := by decide
      exact ⟨⟨fun h => absurd h hfail, fun h => absurd h hnot⟩, fun h => absurd h hfail,
        fun _ => rfl⟩
  | some d =>
      obtain ⟨hpos, hle, q, hq, rfl⟩ := readDentryByName_eq_some_iff.mp hfound
      exact ⟨⟨fun _ => ⟨⟨hpos, hle⟩, q, hq.lt, hq.name⟩, fun _ => rfl⟩, fun _ => ⟨q, hq, rfl⟩,
        fun h => absurd rfl h⟩

end Ece391Os
