import Ece391Os.Library.BoundedLines
import Ece391Os.Properties.CatAndLs

/-!
# `grep`

`do_one_file` keeps the unfinished last line of a full buffer at its beginning and reads on behind
it. `doOneFile_spec` says what it prints of a file without `NUL`: the lines with a match, where a
line that fills the buffer is cut. Of any file it stays inside its arrays, ends, and closes the
file again; `grep_prints` is about the whole directory.
-/

set_option autoImplicit false

namespace Ece391Os

open Interaction Program BoundedLines

/-! ## Strings inside an array -/

section Arrays

variable {b : Buffer} {t : List UInt8} {i e n : Nat}

/-- The scan finds the first newline, or the end of the data. -/
theorem findLineEnd_eq {rem : Nat} (hsize : i + rem ≤ b.size) :
    ∃ e, findLineEnd b rem i = some e ∧ i ≤ e ∧ e ≤ i + rem ∧
      (∀ j, i ≤ j → j < e → b.bytes j ≠ 10) ∧ (e < i + rem → b.bytes e = 10) := by
  induction rem generalizing i with
  | zero => exact ⟨i, rfl, le_rfl, le_rfl, fun j hle hlt => by omega, fun h => by omega⟩
  | succ rem ih =>
      rw [findLineEnd, Buffer.load_of_lt (by omega)]
      by_cases hc : b.bytes i = 10
      · refine ⟨i, ?_, le_rfl, by omega, fun j hle hlt => by omega, fun _ => hc⟩
        simp only [Option.bind_eq_bind, Option.bind_some, hc, ne_eq, not_true_eq_false, if_false]
      · obtain ⟨e, heq, hle, hend, hbefore, hat⟩ := ih (i := i + 1) (by omega)
        refine ⟨e, ?_, by omega, by omega, fun j hj hlt => ?_, fun h => hat (by omega)⟩
        · simp only [Option.bind_eq_bind, Option.bind_some, ne_eq, hc, not_false_eq_true, if_true]
          exact heq
        · rcases Nat.eq_or_lt_of_le hj with rfl | hgt
          · exact hc
          · exact hbefore j hgt hlt

/-- The comparison with a string that holds `t` stops in front of the first `NUL` of the array at
the latest. Its value is zero exactly if all characters of `t` are found. -/
theorem strncmpLoop_eq {s : Buffer} (hs : s.Holds t) (he : e < b.size) (hnul : b.bytes e = 0)
    (hie : i ≤ e) (hn : i + n = t.length) :
    ∃ r, strncmpLoop b s n i = some r ∧
      (r = 0 ↔ ∀ j, i ≤ j → j < t.length → b.bytes j = t.getD j 0) := by
  induction n generalizing i with
  | zero => exact ⟨0, rfl, iff_of_true rfl fun j hle hlt => by omega⟩
  | succ n ih =>
      have hi : i < t.length := by omega
      have hinside := hs.inside
      have hchar := hs.chars i hi
      rw [strncmpLoop, Buffer.load_of_lt (by omega), Buffer.load_of_lt (by omega)]
      simp only [Option.bind_eq_bind, Option.bind_some]
      by_cases hc : b.bytes i = s.bytes i
      · have hne : b.bytes i ≠ 0 := hc.trans_ne (hs.ne_zero hi)
        have hlt : i ≠ e := by
          rintro rfl
          exact hne hnul
        obtain ⟨r, heq, hiff⟩ := ih (i := i + 1) (by omega) (by omega)
        refine ⟨r, ?_, hiff.trans ⟨fun h j hle hj => ?_, fun h j hle hj => h j (by omega) hj⟩⟩
        · rw [if_pos hc, if_neg hne]
          exact heq
        · rcases Nat.eq_or_lt_of_le hle with rfl | hgt
          · exact hc.trans hchar
          · exact h j hgt hj
      · refine ⟨_, if_neg hc, iff_of_false (fun hzero => ?_) fun h => hc ((h i le_rfl hi).trans
          hchar.symm)⟩
        exact hc (UInt8.toNat_inj.mp (by omega))

/-- The search of a line that a `NUL` ends. -/
theorem searchLine_eq {s : Buffer} (hs : s.Holds t) (ht : t ≠ []) {rem : Nat}
    (he : i + rem < b.size) (hnul : b.bytes (i + rem) = 0) :
    ∃ found, searchLine s t.length b rem i = some found ∧
      (found = true ↔ ∃ c, i ≤ c ∧ c < i + rem ∧
        ∀ j, j < t.length → b.bytes (c + j) = t.getD j 0) := by
  induction rem generalizing i with
  | zero => exact ⟨false, rfl, iff_of_false Bool.false_ne_true fun ⟨c, hle, hlt, _⟩ => by omega⟩
  | succ rem ih =>
      have hpos : 0 < t.length := List.length_pos_iff.mpr ht
      have hinside := hs.inside
      have hnext : i + 1 + rem = i + (rem + 1) := by omega
      obtain ⟨found, heq, hiff⟩ := ih (i := i + 1) (by omega) (by rw [hnext]; exact hnul)
      -- what the search of the rest of the line finds is found here as well
      have hrest : (¬ ∀ j, j < t.length → b.bytes (i + j) = t.getD j 0) →
          (found = true ↔ ∃ c, i ≤ c ∧ c < i + (rem + 1) ∧
            ∀ j, j < t.length → b.bytes (c + j) = t.getD j 0) := by
        intro hnot
        rw [hiff]
        constructor
        · rintro ⟨c, hle, hlt, hall⟩
          exact ⟨c, by omega, by omega, hall⟩
        · rintro ⟨c, hle, hlt, hall⟩
          rcases Nat.eq_or_lt_of_le hle with rfl | hgt
          · exact absurd hall hnot
          · exact ⟨c, hgt, by omega, hall⟩
      have hload : s.load 0 = some (s.bytes 0) := Buffer.load_of_lt (hpos.trans hinside)
      rw [searchLine, hload, Buffer.load_of_lt (by omega)]
      simp only [Option.bind_eq_bind, Option.bind_some]
      by_cases hc : s.bytes 0 = b.bytes i
      · obtain ⟨r, hcmp, hr⟩ := strncmpLoop_eq (b := b.tail i) (e := rem + 1) (i := 0)
          (n := t.length) hs (by show rem + 1 < b.size - i; omega) hnul (Nat.zero_le _)
          (Nat.zero_add _)
        have hcmp : ece391Strncmp (b.tail i) s t.length = some r := hcmp
        rw [if_pos hc, hcmp, Option.bind_some]
        by_cases hmatch : r = 0
        · rw [if_pos hmatch]
          exact ⟨true, rfl, iff_of_true rfl ⟨i, le_rfl, by omega,
            fun j hj => hr.mp hmatch j (Nat.zero_le j) hj⟩⟩
        · rw [if_neg hmatch]
          exact ⟨found, heq, hrest fun h => hmatch (hr.mpr fun j _ hj => h j hj)⟩
      · rw [if_neg hc]
        refine ⟨found, heq, hrest fun h => hc ?_⟩
        have hfirst := h 0 hpos
        rw [Nat.add_zero] at hfirst
        exact (hs.chars 0 hpos).trans hfirst.symm

/-- A string is copied down to a lower index, with its terminator. -/
theorem strcpyLoop_eq {fuel dst src : Nat} (hlt : dst < src) (hle : src ≤ e) (he : e < b.size)
    (hnul : b.bytes e = 0) (hchars : ∀ j, src ≤ j → j < e → b.bytes j ≠ 0)
    (hfuel : e - src < fuel) :
    ∃ b', strcpyLoop fuel dst src b = some b' ∧ b'.size = b.size ∧
      ∀ j, b'.bytes j = if dst ≤ j ∧ j ≤ dst + (e - src) then b.bytes (j - dst + src)
        else b.bytes j := by
  induction fuel generalizing dst src b with
  | zero => omega
  | succ fuel ih =>
      rw [strcpyLoop, Buffer.load_of_lt (by omega)]
      simp only [Option.bind_eq_bind, Option.bind_some]
      rw [Buffer.store_of_lt (by omega), Option.bind_some]
      rcases Nat.eq_or_lt_of_le hle with rfl | hbefore
      · rw [if_neg (not_not.mpr hnul)]
        refine ⟨_, rfl, rfl, fun j => ?_⟩
        simp only [Nat.sub_self, Nat.add_zero]
        rcases eq_or_ne j dst with rfl | hne
        · rw [Function.update_self, if_pos ⟨le_rfl, le_rfl⟩, Nat.sub_self, Nat.zero_add]
        · rw [Function.update_of_ne hne, if_neg (by omega)]
      · rw [if_pos (hchars src le_rfl hbefore)]
        -- the store lies below everything that is still to be copied
        have hkept : ∀ j, src < j → Function.update b.bytes dst (b.bytes src) j = b.bytes j :=
          fun j hj => Function.update_of_ne (by omega) _ _
        obtain ⟨b', heq, hsize, hbytes⟩ := @ih
          { b with bytes := Function.update b.bytes dst (b.bytes src) } (dst + 1) (src + 1)
          (by omega) hbefore he
          ((hkept e hbefore).trans hnul)
          (fun j hj hje => (hkept j hj).trans_ne (hchars j (by omega) hje)) (by omega)
        refine ⟨b', heq, hsize, fun j => ?_⟩
        rw [hbytes]
        simp only
        rcases Nat.lt_trichotomy j dst with hj | rfl | hj
        · rw [if_neg (by omega), if_neg (by omega), Function.update_of_ne (by omega)]
        · rw [if_neg (by omega), if_pos ⟨le_rfl, by omega⟩, Function.update_self, Nat.sub_self,
            Nat.zero_add]
        · by_cases hin : j ≤ dst + (e - src)
          · rw [if_pos ⟨by omega, by omega⟩, if_pos ⟨by omega, hin⟩, hkept _ (by omega)]
            exact congrArg b.bytes (by omega)
          · rw [if_neg (by omega), if_neg (by omega), Function.update_of_ne (by omega)]

/-- The bytes from index `i` to index `e` of an array, as a list. -/
def Buffer.slice (b : Buffer) (i e : Nat) : List UInt8 :=
  (List.range (e - i)).map fun j => b.bytes (i + j)

/-- The string at index `i`, when there is a `NUL` at index `e`. -/
theorem holds_tail (hie : i ≤ e) (he : e < b.size) (hnul : b.bytes e = 0) :
    (b.tail i).Holds (PaddedText.read 0 (e - i) fun j => b.bytes (i + j)) := by
  obtain ⟨hle, -, hend⟩ := PaddedText.length_read_iff.mp
    (rfl : (PaddedText.read 0 (e - i) fun j => b.bytes (i + j)).length = _)
  constructor
  case inside =>
    show _ < b.size - i
    omega
  case chars =>
    intro j hj
    exact (PaddedText.getD_read hj 0).symm
  case nul =>
    rcases Nat.lt_or_eq_of_le hle with hlt | heq
    · exact hend hlt
    · show b.bytes (i + _) = 0
      rw [heq, Nat.add_sub_cancel' hie]
      exact hnul
  case clean => exact PaddedText.not_mem_read _ _ _

/-- Without a `NUL` in between that string is the slice. -/
theorem read_eq_slice (hclean : (0 : UInt8) ∉ b.slice i e) :
    (PaddedText.read 0 (e - i) fun j => b.bytes (i + j)) = b.slice i e := by
  apply List.takeWhile_eq_self_iff.mpr
  intro c hc
  exact decide_eq_true fun hzero => hclean (hzero ▸ hc)

/-- The first `NUL` from index `i` on. -/
theorem exists_firstNul (hie : i ≤ e) (hnul : b.bytes e = 0) :
    ∃ e', i ≤ e' ∧ e' ≤ e ∧ b.bytes e' = 0 ∧ ∀ j, i ≤ j → j < e' → b.bytes j ≠ 0 := by
  obtain ⟨hle, hchars, hend⟩ := PaddedText.length_read_iff.mp
    (rfl : (PaddedText.read 0 (e - i) fun j => b.bytes (i + j)).length = _)
  generalize (PaddedText.read 0 (e - i) fun j => b.bytes (i + j)).length = m at hle hchars hend
  refine ⟨i + m, by omega, by omega, ?_, fun j hij hj => ?_⟩
  · rcases Nat.lt_or_eq_of_le hle with hlt | rfl
    · exact hend hlt
    · rw [Nat.add_sub_cancel' hie]
      exact hnul
  · have hchar := hchars (j - i) (by omega)
    rwa [Nat.add_sub_cancel' hij] at hchar

/-- The search finds what occurs in the line. -/
theorem found_iff_isInfix (ht : (0 : UInt8) ∉ t) (hne : t ≠ []) (hie : i ≤ e)
    (hnul : b.bytes e = 0) :
    (∃ c, i ≤ c ∧ c < e ∧ ∀ j, j < t.length → b.bytes (c + j) = t.getD j 0) ↔
      t <:+: b.slice i e := by
  have hlen : (b.slice i e).length = e - i := by
    rw [Buffer.slice, List.length_map, List.length_range]
  have hpos : 0 < t.length := List.length_pos_iff.mpr hne
  have hget : ∀ c j, i ≤ c → c + j < e → j < t.length →
      ((b.slice i e)[c - i + j]? = t[j]? ↔ b.bytes (c + j) = t.getD j 0) := by
    intro c j hc hj hjt
    have hindex : c - i + j < (b.slice i e).length := by omega
    rw [List.getElem?_eq_getElem hindex, List.getElem?_eq_getElem hjt, Option.some_inj,
      List.getD_eq_getElem _ _ hjt]
    simp only [Buffer.slice, List.getElem_map, List.getElem_range]
    rw [show i + (c - i + j) = c + j by omega]
  rw [isInfix_iff]
  constructor
  · rintro ⟨c, hc, hce, hall⟩
    -- an occurrence ends in front of the `NUL`
    have hend : c + t.length ≤ e := by
      by_contra hlong
      have hzero := hall (e - c) (by omega)
      rw [Nat.add_sub_cancel' (by omega), hnul, List.getD_eq_getElem _ _ (by omega)] at hzero
      exact ht (hzero ▸ List.getElem_mem _)
    exact ⟨c - i, by omega, fun j hj => (hget c j hc (by omega) hj).mpr (hall j hj)⟩
  · rintro ⟨k, hk, hall⟩
    refine ⟨i + k, by omega, by omega, fun j hj => (hget (i + k) j (by omega) (by omega) hj).mp ?_⟩
    rw [Nat.add_sub_cancel_left]
    exact hall j hj

end Arrays

/-! ## The lines of the data -/

/-- What `grep` prints for a line. -/
def matchLine (t fname line : List UInt8) : List UInt8 :=
  if t <:+: line then fname ++ [58] ++ line ++ [10] else []

/-- What `grep` prints for a text, behind a begun line. -/
def grepText (t fname cur text : List UInt8) : List UInt8 :=
  (cut 10 bufsize cur text).flatMap (matchLine t fname)

section Texts

variable {t fname cur part text : List UInt8}

theorem matchLine_nil (ht : t ≠ []) : matchLine t fname [] = [] :=
  if_neg fun h => ht (List.infix_nil.mp h)

theorem grepText_line (hpart : (10 : UInt8) ∉ part) (hwidth : part.length < bufsize) :
    grepText t fname [] (part ++ 10 :: text) =
      matchLine t fname part ++ grepText t fname [] text := by
  rw [grepText, cut_line hpart hwidth, List.flatMap_cons]
  rfl

theorem grepText_begun (hcur : (10 : UInt8) ∉ cur) (hwidth : cur.length < bufsize) :
    grepText t fname cur text = grepText t fname [] (cur ++ text) := by
  rw [grepText, cut_begun hcur hwidth]
  rfl

/-- A line without end: the last one of a text, or one that fills the buffer. -/
theorem grepText_end (ht : t ≠ []) (hpart : (10 : UInt8) ∉ part) (hwidth : part.length ≤ bufsize)
    (hend : part.length = bufsize ∨ text = []) :
    grepText t fname [] (part ++ text) = matchLine t fname part ++ grepText t fname [] text := by
  rcases Nat.lt_or_eq_of_le hwidth with hlt | hfull
  · obtain rfl := hend.resolve_left (by omega)
    rw [← grepText_begun hpart hlt]
    rcases eq_or_ne part [] with rfl | hne
    · rw [matchLine_nil ht, List.nil_append]
    · rw [grepText, cut_nil hne, List.flatMap_singleton, grepText, cut_nil_nil, List.flatMap_nil,
        List.append_nil]
  · have hne : part ≠ [] := by
      rintro rfl
      exact absurd hfull (by decide)
    rw [grepText, cut_full hpart hne (by rw [List.length_nil, Nat.zero_add]; exact hfull),
      List.flatMap_cons, List.nil_append]
    rfl

end Texts

section Printing

variable {img : FsImage} {env : Environment} {p : Pid} {v : View} {s : UserProcess}

theorem ensures_printMatch (h : Sees p v s) (hkeeps : env.Keeps p)
    {b c : Buffer} {fname line : List UInt8} (hb : b.Holds fname) (hc : c.Holds line) :
    Ensures (answer img env) (printMatch b c) s fun _ s' =>
      Sees p { v with written := v.written ++ (fname ++ [58] ++ line ++ [10]) } s' := by
  have hcolon : (literal ":").Holds [58] := literal_holds (by decide)
  have hnewline : (literal "\n").Holds [10] := literal_holds (by decide)
  apply (ensures_fdputs h hkeeps hb).seq
  intro _ s₁ h₁
  apply (ensures_fdputs h₁ hkeeps hcolon).seq
  intro _ s₂ h₂
  apply (ensures_fdputs h₂ hkeeps hc).seq
  intro _ s₃ h₃
  apply (ensures_fdputs h₃ hkeeps hnewline).mono
  intro _ s₄ h₄
  simpa only [List.append_assoc] using h₄

end Printing

/-! ## The inner loop -/

/-- The rounds of the inner loop: the lines of `T` in front of `line_start` have been searched. What
is printed is known of a text without `NUL`, and if the bytes `R` that follow in the file come
behind a full buffer. -/
def LinesAt (p : Pid) (v : View) (t fname : List UInt8) (clean : Prop) (T before : List UInt8)
    (st : Nat × Buffer) (s : UserProcess) : Prop :=
  st.2.size = bufsize + 1 ∧ st.1 ≤ T.length ∧ (st.1 = 0 ∨ st.1 < T.length) ∧
    ∃ out, Sees p { v with written := before ++ out } s ∧
      (clean → st.2.bytes bufsize ≠ 10 ∧
        (∀ j, st.1 ≤ j → j < T.length → st.2.bytes j = T.getD j 0) ∧
        ∀ R, T.length = bufsize ∨ R = [] →
          out ++ grepText t fname [] (T.drop st.1 ++ R) = grepText t fname [] (T ++ R))

/-- The end of the inner loop: the unfinished line `pend` is at the beginning of the array. -/
def LinesDone (p : Pid) (v : View) (t fname : List UInt8) (clean : Prop) (T before : List UInt8)
    (cnt : Nat) (st : Nat × Buffer) (s : UserProcess) : Prop :=
  st.2.size = bufsize + 1 ∧ st.1 < bufsize ∧
    ∃ out, Sees p { v with written := before ++ out } s ∧
      (clean → st.2.bytes bufsize ≠ 10 ∧
        ∃ pend : List UInt8, pend.length = st.1 ∧ (10 : UInt8) ∉ pend ∧ (0 : UInt8) ∉ pend ∧
          (∀ j, j < st.1 → st.2.bytes j = pend.getD j 0) ∧ (cnt = 0 → pend = []) ∧
          ∀ R, T.length = bufsize ∨ R = [] →
            out ++ grepText t fname pend R = grepText t fname [] (T ++ R))

section InnerLoop

variable {img : FsImage} {env : Environment} {p : Pid} {v : View} {t fname T before : List UInt8}
  {clean : Prop} {b : Buffer} {i e : Nat}

theorem slice_eq_take (hbytes : ∀ j, i ≤ j → j < T.length → b.bytes j = T.getD j 0)
    (he : e ≤ T.length) : b.slice i e = (T.drop i).take (e - i) := by
  apply List.ext_getElem
  · rw [Buffer.slice, List.length_map, List.length_range, List.length_take, List.length_drop]
    omega
  · intro j hj hj'
    rw [Buffer.slice, List.length_map, List.length_range] at hj
    simp only [Buffer.slice, List.getElem_map, List.getElem_range, List.getElem_take,
      List.getElem_drop]
    rw [hbytes (i + j) (by omega) (by omega), List.getD_eq_getElem]

/-- A store at the end of a slice. -/
theorem slice_update {c : UInt8} :
    ({ b with bytes := Function.update b.bytes e c } : Buffer).slice i e = b.slice i e := by
  apply List.map_congr_left
  intro j hj
  have hlt := List.mem_range.mp hj
  exact Function.update_of_ne (by omega) _ _

/-- A line without newline in front of index `e`. -/
theorem not_mem_slice (hbytes : ∀ j, i ≤ j → j < e → b.bytes j ≠ 10) :
    (10 : UInt8) ∉ b.slice i e := by
  intro hmem
  obtain ⟨j, hj, heq⟩ := List.mem_map.mp hmem
  have hlt := List.mem_range.mp hj
  exact hbytes (i + j) (by omega) (by omega) heq

/-- The rest of the data at a line end. -/
theorem drop_eq_line (he : e < T.length) (hie : i ≤ e) (hend : T.getD e 0 = 10) :
    T.drop i = (T.drop i).take (e - i) ++ 10 :: T.drop (e + 1) := by
  have hsplit := List.take_append_drop (e - i) (T.drop i)
  rw [List.drop_drop, Nat.add_sub_cancel' hie, List.drop_eq_getElem_cons he,
    ← List.getD_eq_getElem T 0 he, hend] at hsplit
  exact hsplit.symm

/-- The line from index `i` to index `e` and what follows it. -/
theorem grepText_drop (ht : t ≠ []) (hwidth : T.length ≤ bufsize) (hie : i ≤ e) (he : e ≤ T.length)
    (hnewline : (10 : UInt8) ∉ (T.drop i).take (e - i)) (hend : e < T.length → T.getD e 0 = 10)
    {R : List UInt8} (hR : T.length = bufsize ∨ R = [])
    (hfull : e = T.length → T.length = bufsize → i = 0) :
    grepText t fname [] (T.drop i ++ R) =
      matchLine t fname ((T.drop i).take (e - i)) ++ grepText t fname [] (T.drop (e + 1) ++ R) := by
  rcases Nat.lt_or_eq_of_le he with hlt | rfl
  · have hshort : ((T.drop i).take (e - i)).length < bufsize := by
      rw [List.length_take]
      omega
    conv_lhs => rw [drop_eq_line hlt hie (hend hlt), List.append_assoc, List.cons_append]
    exact grepText_line hnewline hshort
  · have hall : (T.drop i).take (T.length - i) = T.drop i := by
      rw [← List.length_drop, List.take_length]
    rw [hall] at hnewline ⊢
    rw [List.drop_of_length_le (Nat.le_succ _), List.nil_append]
    apply grepText_end ht hnewline (by rw [List.length_drop]; omega)
    rcases hR with hlen | hnil
    · exact Or.inl (by rw [hfull rfl hlen, List.drop_zero]; exact hlen)
    · exact Or.inr hnil

/-- A partial line goes to the beginning of the array. -/
theorem moveLine_eq (hsize : b.size = bufsize + 1) {last lineStart : Nat} (hlast : last ≤ bufsize)
    (hpos : 0 < lineStart) (hle : lineStart ≤ last) :
    ∃ b', ece391Strcpy { b with bytes := Function.update b.bytes last 0 } 0 lineStart = some b' ∧
      b'.size = bufsize + 1 ∧
      (b.bytes bufsize ≠ 10 → b'.bytes bufsize ≠ 10) ∧
      ((∀ j, lineStart ≤ j → j < last → b.bytes j ≠ 0) →
        ∀ j, j < last - lineStart → b'.bytes j = b.bytes (lineStart + j)) := by
  generalize hb : ({ b with bytes := Function.update b.bytes last 0 } : Buffer) = b₁
  have hsize₁ : b₁.size = bufsize + 1 := hb ▸ hsize
  have hnul : b₁.bytes last = 0 := hb ▸ Function.update_self _ _ _
  have hkept : ∀ j, j ≠ last → b₁.bytes j = b.bytes j := fun j hj =>
    hb ▸ Function.update_of_ne hj _ _
  obtain ⟨e, hse, hel, hzero, hchars⟩ := exists_firstNul hle hnul
  obtain ⟨b', heq, hsize', hbytes⟩ := strcpyLoop_eq hpos hse (by omega : e < b₁.size) hzero hchars
    (by omega : e - lineStart < b₁.size)
  refine ⟨b', heq, hsize'.trans hsize₁, fun hlastbyte => ?_, fun hclean j hj => ?_⟩
  · rw [hbytes, if_neg (by omega)]
    rcases eq_or_ne bufsize last with heq | hne
    · rw [heq, hnul]
      decide
    · rw [hkept _ hne]
      exact hlastbyte
  · have hend : e = last := by
      by_contra hne
      exact hclean e hse (by omega) ((hkept e hne).symm.trans hzero)
    rw [hbytes, if_pos ⟨Nat.zero_le j, by omega⟩, hkept _ (by omega)]
    exact congrArg b.bytes (by omega)

variable {s : UserProcess} {sb fb : Buffer} {cnt : Nat}

/-- What the search of the line from `i` to `e` prints, in front of the rest `next` of a round. -/
theorem ensures_searched (h : Sees p v s) (hkeeps : env.Keeps p)
    (hs : sb.Holds t) (ht : t ≠ []) (hf : fb.Holds fname) (hie : i ≤ e) (he : e < b.size)
    (hnul : b.bytes e = 0) {α : Type} {next : Unit → User α} {Q : α → UserProcess → Prop}
    (hnext : ∀ out s', Sees p { v with written := v.written ++ out } s' →
      ((0 : UInt8) ∉ b.slice i e → out = matchLine t fname (b.slice i e)) →
      Ensures (answer img env) (next ()) s' Q) :
    Ensures (answer img env) (require (searchLine sb t.length b (e - i) i) >>= fun found =>
      if found = true then printMatch fb (b.tail i) >>= next else next ()) s Q := by
  have hrange : i + (e - i) = e := Nat.add_sub_cancel' hie
  obtain ⟨found, hsearch, hfound⟩ := searchLine_eq (b := b) (i := i) hs ht
    (by rw [hrange]; exact he) (by rw [hrange]; exact hnul)
  rw [hrange, found_iff_isInfix hs.clean ht hie hnul] at hfound
  apply Ensures.require hsearch
  cases found with
  | true =>
      apply (ensures_printMatch h hkeeps hf (holds_tail hie he hnul)).seq
      intro _ s' hs'
      apply hnext _ s' hs'
      intro hclean
      rw [read_eq_slice hclean, matchLine, if_pos (hfound.mp rfl)]
  | false =>
      have hnot : ¬ t <:+: b.slice i e := fun hin => nomatch hfound.mpr hin
      apply hnext [] s
      · rw [List.append_nil]
        exact h
      · exact fun _ => (if_neg hnot).symm

theorem lineRound_spec (hkeeps : env.Keeps p) (hs : sb.Holds t)
    (ht : t ≠ []) (hf : fb.Holds fname) (hclean : clean → (0 : UInt8) ∉ T)
    (hwidth : T.length ≤ bufsize) (hlast : cnt = 0 → T.length < bufsize) {st : Nat × Buffer}
    (h : LinesAt p v t fname clean T before st s) :
    Ensures (answer img env) (lineRound sb t.length fb cnt T.length st) s
      (AfterRound (LinesAt p v t fname clean T before) (fun st _ => T.length - st.1)
        (LinesDone p v t fname clean T before cnt) (T.length - st.1)) := by
  obtain ⟨i, b⟩ := st
  obtain ⟨hsize, hiT, hstart, done, hsees, htext⟩ := h
  simp only at hsize hiT hstart htext
  have hbuf : bufsize = 1024 := rfl
  obtain ⟨e, hfind, hie, heT, hbefore, hat⟩ := findLineEnd_eq
    (by omega : i + (T.length - i) ≤ b.size)
  rw [Nat.add_sub_cancel' hiT] at heT hat
  apply Ensures.require hfind
  apply Ensures.require (Buffer.load_of_lt (by omega))
  split
  next hmove =>
    obtain ⟨hc, hcnt, hi⟩ := hmove
    -- no line end before the end of the data
    have hend : e = T.length := by
      by_contra hne
      exact hc (hat (by omega))
    subst hend
    obtain ⟨b', hcopy, hsize', hbyte, hmoved⟩ := moveLine_eq hsize hwidth (Nat.pos_of_ne_zero hi)
      hiT
    apply Ensures.require (Buffer.store_of_lt (by omega) 0)
    apply Ensures.require hcopy
    apply ensures_pure
    refine ⟨hsize', by show T.length - i < bufsize; omega, done, hsees, fun hc => ?_⟩
    obtain ⟨hbyte₀, hbytes, hout⟩ := htext hc
    have hdrop : (T.drop i).length = T.length - i := List.length_drop
    have hnewline : (10 : UInt8) ∉ T.drop i := by
      have hslice := slice_eq_take hbytes (e := T.length) le_rfl
      rw [← hdrop, List.take_length] at hslice
      rw [← hslice]
      exact not_mem_slice hbefore
    refine ⟨hbyte hbyte₀, T.drop i, hdrop, hnewline,
      fun hmem => hclean hc (List.mem_of_mem_drop hmem), fun j hj => ?_,
      fun hzero => absurd hzero.symm hcnt, fun R hR => ?_⟩
    · have hnonzero : ∀ j, i ≤ j → j < T.length → b.bytes j ≠ 0 := fun j hj hlt => by
        rw [hbytes j hj hlt, List.getD_eq_getElem _ _ hlt]
        exact fun hzero => hclean hc (hzero ▸ List.getElem_mem hlt)
      simp only at hj ⊢
      rw [hmoved hnonzero j hj, hbytes (i + j) (by omega) (by omega), List.getD_eq_getElem?_getD,
        List.getD_eq_getElem?_getD, List.getElem?_drop]
    · rw [grepText_begun hnewline (by omega)]
      exact hout R hR
  next hsearch =>
    apply Ensures.require (Buffer.store_of_lt (by omega) 0)
    apply ensures_searched hsees hkeeps hs ht hf hie (by show e < b.size; omega)
      (Function.update_self e 0 b.bytes)
    intro out s' hsees' hout
    simp only [List.append_assoc] at hsees'
    have hslice : ({ b with bytes := Function.update b.bytes e 0 } : Buffer).slice i e =
        b.slice i e := slice_update
    have hbyte : clean → Function.update b.bytes e 0 bufsize ≠ 10 := by
      intro hc
      rcases eq_or_ne bufsize e with rfl | hne
      · rw [Function.update_self]
        decide
      · rw [Function.update_of_ne hne]
        exact (htext hc).1
    -- the line is searched, and what follows it is the rest
    have hrest : clean → ∀ R, T.length = bufsize ∨ R = [] →
        (done ++ out) ++ grepText t fname [] (T.drop (e + 1) ++ R) =
          grepText t fname [] (T ++ R) := by
      intro hc R hR
      obtain ⟨hbyte₀, hbytes, hprinted⟩ := htext hc
      rw [← hprinted R hR, List.append_assoc, List.append_cancel_left_eq]
      have hx : b.slice i e = (T.drop i).take (e - i) := slice_eq_take hbytes heT
      have hnewline : (10 : UInt8) ∉ (T.drop i).take (e - i) := hx ▸ not_mem_slice hbefore
      have hnul : (0 : UInt8) ∉ (T.drop i).take (e - i) := fun hmem =>
        hclean hc (List.mem_of_mem_drop (List.mem_of_mem_take hmem))
      rw [hslice, hx] at hout
      rw [hout hnul]
      refine (grepText_drop ht hwidth hie heT hnewline (fun hlt => ?_) hR fun hend hfull => ?_).symm
      · rw [← hbytes e hie hlt]
        exact hat hlt
      · -- a full buffer without any line end
        by_contra hi
        refine hsearch ⟨by rw [hend, hfull]; exact hbyte₀, fun hcnt => ?_, hi⟩
        have := hlast hcnt.symm
        omega
    split
    next hlastline =>
      apply ensures_pure
      refine ⟨hsize, (by decide : 0 < bufsize), done ++ out, hsees', fun hc => ⟨hbyte hc, [], rfl,
        List.not_mem_nil, List.not_mem_nil, fun j hj => absurd hj (Nat.not_lt_zero j),
        fun _ => rfl, fun R hR => ?_⟩⟩
      rw [← hrest hc R hR, List.drop_of_length_le hlastline, List.nil_append]
    next hmore =>
      apply ensures_pure
      refine ⟨⟨hsize, by show e + 1 ≤ T.length; omega, Or.inr (by show e + 1 < T.length; omega),
        done ++ out, hsees', fun hc => ⟨hbyte hc, fun j hj hlt => ?_, hrest hc⟩⟩, ?_⟩
      · have hne : j ≠ e := by
          have hj : e + 1 ≤ j := hj
          omega
        show Function.update b.bytes e 0 j = T.getD j 0
        rw [Function.update_of_ne hne]
        exact (htext hc).2.1 j (by have hj : e + 1 ≤ j := hj; omega) hlt
      · show T.length - (e + 1) < T.length - i
        omega

end InnerLoop

/-! ## The outer loop -/

/-- The rounds of the outer loop, at position `pos` of the file. If `clean` holds, the array begins
with an unfinished line, and what has been printed together with what that line and the rest of the
file give is what the file gives. -/
def GrepAt (img : FsImage) (p : Pid) (fds : FdTable) (fd : Fin 8) (clean : Prop)
    (content t fname before : List UInt8) (st : Nat × Buffer) (s : UserProcess) : Prop :=
  st.2.size = bufsize + 1 ∧ st.1 < bufsize ∧
    ∃ pos out, Reading img p fds fd content pos (before ++ out) s ∧ pos ≤ content.length ∧
      (pos = 0 → st.1 = 0) ∧ (content.length < bufsize → pos = 0 ∨ pos = content.length) ∧
      (clean → st.2.bytes bufsize ≠ 10 ∧
        ∃ pend : List UInt8, pend.length = st.1 ∧ (10 : UInt8) ∉ pend ∧ (0 : UInt8) ∉ pend ∧
          (∀ j, j < st.1 → st.2.bytes j = pend.getD j 0) ∧
          ∀ m, pos ≤ m → m ≤ content.length →
            out ++ grepText t fname pend ((content.take m).drop pos) =
              grepText t fname [] (content.take m))

/-- What `grep` prints of a file: the lines with a match of the first `m` bytes, which are all bytes
of a file that is shorter than the buffer. -/
def Grepped (content t fname out : List UInt8) : Prop :=
  ∃ m, m ≤ content.length ∧ content.length < m + bufsize ∧
    (content.length < bufsize → m = content.length) ∧ out = grepText t fname [] (content.take m)

/-- The end of the outer loop. -/
def GrepDone (img : FsImage) (p : Pid) (fds : FdTable) (fd : Fin 8) (clean : Prop)
    (content t fname before : List UInt8) (r : Int) (s : UserProcess) : Prop :=
  r = 0 ∧ ∃ pos out, Reading img p fds fd content pos (before ++ out) s ∧
    (clean → Grepped content t fname out)

section OuterLoop

variable {img : FsImage} {env : Environment} {p : Pid} {fds : FdTable} {fd : Fin 8}
  {content t fname before : List UInt8} {s : UserProcess} {sb fb : Buffer}

/-- The unfinished line and the bytes that a read has put behind it. -/
theorem slice_filled {b b' : Buffer} {last n : Nat} {pend part : List UInt8}
    (hpend : pend.length = last) (hbytes : ∀ j, j < last → b.bytes j = pend.getD j 0)
    (hfilled : b.Filled last n part b') :
    b'.slice 0 (last + part.length) = pend ++ part := by
  apply List.ext_getElem
  · rw [Buffer.slice, List.length_map, List.length_range, List.length_append, hpend, Nat.sub_zero]
  · intro j hj hj'
    rw [List.length_append] at hj'
    simp only [Buffer.slice, List.getElem_map, List.getElem_range, Nat.zero_add]
    rcases Nat.lt_or_ge j pend.length with hlt | hge
    · rw [hfilled.outside j (Or.inl (by omega)), hbytes j (by omega),
        List.getElem_append_left hlt, List.getD_eq_getElem _ _ hlt]
    · have hbyte := hfilled.text_eq (j - last) (by omega)
      rw [Nat.add_sub_cancel' (by omega)] at hbyte
      rw [hbyte, List.getElem_append_right hge, List.getD_eq_getElem _ _ (by omega)]
      simp only [hpend]

/-- A part of a file in the middle of a prefix. -/
theorem drop_take_split {pos m m' : Nat} (h : pos + m ≤ m') :
    (content.take m').drop pos = (content.drop pos).take m ++ (content.take m').drop (pos + m) := by
  have hpart : ((content.take m').drop pos).take m = (content.drop pos).take m := by
    rw [List.drop_take, List.take_take, min_eq_left (by omega)]
  rw [← hpart, ← List.drop_drop, List.take_append_drop]

theorem Reading.position_eq {pos : Nat} {written : List UInt8}
    (h : Reading img p fds fd content pos written s) : s.kernel.position p fd = pos := by
  obtain ⟨block, args, reads, executed, hfile, hsees⟩ := h
  have htable := congrFun hsees.fds fd
  simp only [Function.update_self] at htable
  rw [Kernel.position, htable]
  exact hfile.position

theorem getD_slice {b : Buffer} {e j : Nat} (hj : j < e) : b.bytes j = (b.slice 0 e).getD j 0 := by
  have hlen : (b.slice 0 e).length = e := by
    rw [Buffer.slice, List.length_map, List.length_range, Nat.sub_zero]
  rw [List.getD_eq_getElem _ _ (by omega)]
  simp only [Buffer.slice, List.getElem_map, List.getElem_range, Nat.zero_add]

theorem fileRound_spec (hkeeps : env.Keeps p) (hblocks : img.BlocksValid)
    (hs : sb.Holds t) (ht : t ≠ []) (hf : fb.Holds fname) {clean : Prop}
    (hcontent : clean → (0 : UInt8) ∉ content) {st : Nat × Buffer}
    (h : GrepAt img p fds fd clean content t fname before st s) :
    Ensures (answer img env) (fileRound sb t.length fb fd.val st) s
      (AfterRound (GrepAt img p fds fd clean content t fname before)
        (fun _ t => content.length - (t.kernel.position p fd))
        (GrepDone img p fds fd clean content t fname before)
        (content.length - s.kernel.position p fd)) := by
  obtain ⟨last, b⟩ := st
  obtain ⟨hsize, hlast, pos, done, hreading, hle, hstart, hshort, htext⟩ := h
  simp only at hsize hlast hstart htext
  have hbuf : bufsize = 1024 := rfl
  apply (hreading.read hkeeps hblocks (b := b) (i := last) (n := bufsize - last) (by omega)
    (by have hfile : fileSize = 4096 := rfl; omega) (by omega)).seq
  rintro ⟨cnt, b'⟩ s₁ ⟨hcnt, hfilled, hreading₁⟩
  simp only at hcnt hfilled
  have hpos := hreading.position_eq
  have hcount := @fileCount_le content.length pos (bufsize - last) hle
  have hrequest := @fileCount_le_request content.length pos (bufsize - last)
  have hcases := fileCount_cases content.length pos (bufsize - last)
  generalize hm : fileCount content.length pos (bufsize - last) = m at *
  have hpart : ((content.drop pos).take m).length = m := by
    rw [List.length_take, List.length_drop]
    omega
  have hcountOf : countOf (m : Int) = some m := by
    rw [countOf, if_pos (Int.natCast_nonneg m), Int.toNat_natCast]
  simp only [hcnt, if_neg (by omega : ¬ (m : Int) = -1)]
  apply Ensures.require hcountOf
  -- the data behind the read: the unfinished line and the new part
  generalize hdata : b'.slice 0 (last + m) = T
  have hT : T.length = last + m := by
    rw [← hdata, Buffer.slice, List.length_map, List.length_range, Nat.sub_zero]
  have hbyte : ∀ j, j < T.length → b'.bytes j = T.getD j 0 := fun j hj => by
    rw [← hdata]
    exact getD_slice (hT ▸ hj)
  have hclean : clean → ∃ pend : List UInt8, T = pend ++ (content.drop pos).take m ∧
      (10 : UInt8) ∉ pend ∧ (0 : UInt8) ∉ T ∧ pend.length = last ∧
      ∀ m', pos ≤ m' → m' ≤ content.length →
        done ++ grepText t fname pend ((content.take m').drop pos) =
          grepText t fname [] (content.take m') := by
    intro hc
    obtain ⟨-, pend, hlen, hnewline, hnul, hbytes, hout⟩ := htext hc
    have hsplit : T = pend ++ (content.drop pos).take m := by
      rw [← hdata, ← slice_filled hlen hbytes hfilled, hpart]
    refine ⟨pend, hsplit, hnewline, fun hmem => ?_, hlen, hout⟩
    rw [hsplit] at hmem
    rcases List.mem_append.mp hmem with hmem | hmem
    · exact hnul hmem
    · exact hcontent hc (List.mem_of_mem_drop (List.mem_of_mem_take hmem))
  obtain ⟨block, args, reads, executed, hfile, hsees⟩ := hreading₁
  have hlines : Ensures (answer img env)
      (loop (lineRound sb t.length fb m T.length) (T.length + 1) (0, b')) s₁
      (LinesDone p ⟨Function.update fds fd block, args, reads, before ++ done, executed⟩ t fname
        clean T (before ++ done) m) := by
    apply ensures_loop (LinesAt p ⟨Function.update fds fd block, args, reads, before ++ done,
      executed⟩ t fname clean T (before ++ done)) (fun st _ => T.length - st.1)
    · intro st s' hst
      refine lineRound_spec hkeeps hs ht hf (fun hc => ?_) (by omega) (fun hzero => by omega)
        hst
      obtain ⟨pend, -, -, hnul, -⟩ := hclean hc
      exact hnul
    · refine ⟨hfilled.size_eq.trans hsize, Nat.zero_le _, Or.inl rfl, [], ?_, fun hc => ?_⟩
      · rw [List.append_nil]
        exact hsees
      refine ⟨?_, fun j _ hj => hbyte j hj, fun R _ => rfl⟩
      rw [hfilled.outside bufsize (Or.inr (by omega))]
      exact (htext hc).1
    · exact Nat.lt_succ_self _
  rw [hT] at hlines
  apply hlines.seq
  rintro ⟨last', b''⟩ s₂ ⟨hsize₂, hlast₂, out, hsees₂, hprinted⟩
  have hreading₂ : Reading img p fds fd content (pos + m) (before ++ (done ++ out)) s₂ := by
    rw [← List.append_assoc]
    exact ⟨block, args, reads, executed, hfile, hsees₂⟩
  -- what has been printed and what is left, for a prefix of the file that goes past the new part
  have hrest : clean → ∃ pend : List UInt8, pend.length = last' ∧
      (10 : UInt8) ∉ pend ∧ (0 : UInt8) ∉ pend ∧ (∀ j, j < last' → b''.bytes j = pend.getD j 0) ∧
      (m = 0 → pend = []) ∧ ∀ m', pos + m ≤ m' → m' ≤ content.length →
        (last + m = bufsize ∨ (content.take m').drop (pos + m) = []) →
        (done ++ out) ++ grepText t fname pend ((content.take m').drop (pos + m)) =
          grepText t fname [] (content.take m') := by
    intro hc
    obtain ⟨pend, hsplit, hnewline, -, hlen, hout⟩ := hclean hc
    obtain ⟨-, pend', hlen', hnewline', hnul', hbytes', hzero, hout'⟩ := hprinted hc
    refine ⟨pend', hlen', hnewline', hnul', hbytes', hzero, fun m' hm' hle' hR => ?_⟩
    rw [List.append_assoc, hout' _ (hT ▸ hR), ← hout m' (by omega) hle', drop_take_split hm',
      hsplit, List.append_assoc, ← grepText_begun hnewline (by omega)]
  by_cases hzero : m = 0
  · subst hzero
    simp only [if_true]
    apply ensures_pure
    refine ⟨rfl, pos, done ++ out, hreading₂, fun hc => ⟨pos, hle, by omega, by omega, ?_⟩⟩
    obtain ⟨pend, -, -, -, -, hnil, hout⟩ := hrest hc
    have hend : (content.take pos).drop pos = [] := by
      rw [List.drop_take, Nat.sub_self, List.take_zero]
    have hprint := hout pos le_rfl hle (Or.inr hend)
    rw [Nat.add_zero, hend, hnil rfl] at hprint
    rw [← hprint]
    exact (List.append_nil _).symm
  · simp only [if_neg hzero]
    apply ensures_pure
    refine ⟨⟨hsize₂, hlast₂, pos + m, done ++ out, hreading₂, hcount, by omega, by omega,
      fun hc => ?_⟩, ?_⟩
    · obtain ⟨pend, hlen, hnewline, hnul, hbytes, -, hout⟩ := hrest hc
      refine ⟨(hprinted hc).1, pend, hlen, hnewline, hnul, hbytes, fun m' hm' hle' =>
        hout m' hm' hle' ?_⟩
      rcases hcases with ⟨-, hfull⟩ | ⟨hfirst, -, hall⟩ | ⟨-, -, hnone⟩
      · exact Or.inl (by omega)
      · refine Or.inr ?_
        rw [List.drop_take, show m' - (pos + m) = 0 by omega, List.take_zero]
      · exact absurd hnone hzero
    · show content.length - s₂.kernel.position p fd < content.length - s.kernel.position p fd
      rw [hreading₂.position_eq, hpos]
      omega

end OuterLoop

/-! ## `do_one_file` -/

section OneFile

variable {img : FsImage} {env : Environment} {p : Pid} {v : View} {s : UserProcess}
  {sb fb : Buffer} {t fname : List UInt8} {dentry : DirEntry}

/-- The descriptors are those of `fds`, but for the lowest free one, which is free again. -/
def Reopened (fds fds' : FdTable) : Prop :=
  ∃ fd b, IsLowestFree fds fd ∧ b.Free ∧ fds' = Function.update fds fd b

/-- `do_one_file` of a regular file ends, without leaving its arrays, and closes the file. Of a file
without `NUL` it prints the lines with a match, if its array did not happen to be followed by a
newline. -/
theorem doOneFile_spec (hwf : img.WellFormed) (hkeeps : env.Keeps p) (h : Sees p v s)
    (hroom : Room v.fds) (hs : sb.Holds t) (ht : t ≠ [])
    (hf : fb.Holds fname) (hfound : readDentryByName img fname = some dentry)
    (htype : dentry.fileType = typeFile) (stack : Nat → UInt8) {rounds : Nat}
    (hrounds : (img.content dentry.inodeNum).length < rounds) :
    Ensures (answer img env) (doOneFile rounds stack sb fb) s fun r s' =>
      r = 0 ∧ ∃ fds' reads executed args out, Reopened v.fds fds' ∧
        Sees p ⟨fds', args, reads, v.written ++ out, executed⟩ s' ∧
        ((0 : UInt8) ∉ img.content dentry.inodeNum → stack bufsize ≠ 10 →
          Grepped (img.content dentry.inodeNum) t fname out) := by
  generalize hcontent : img.content dentry.inodeNum = content at hrounds ⊢
  apply Ensures.require hs.strlen
  apply (ensures_open_file h hkeeps hf hfound htype hroom).seq
  rintro ret s₁ ⟨fd, hlow, rfl, hsees₁⟩
  simp only [if_neg (by omega : ¬ (fd.val : Int) = -1)]
  have hfile : FileAt img content 0 ⟨some .file, dentry.inodeNum, 0, 1⟩ :=
    hcontent ▸ fileAt_of_open hwf hfound htype
  have hstart : Reading img p v.fds fd content 0 v.written s₁ := ⟨_, _, _, _, hfile, hsees₁⟩
  have hloop : Ensures (answer img env)
      (loop (fileRound sb t.length fb fd.val) rounds (0, ⟨bufsize + 1, stack⟩)) s₁
      (GrepDone img p v.fds fd ((0 : UInt8) ∉ content ∧ stack bufsize ≠ 10) content t fname
        v.written) := by
    apply ensures_loop (GrepAt img p v.fds fd ((0 : UInt8) ∉ content ∧ stack bufsize ≠ 10) content t
      fname v.written) (fun _ s => content.length - s.kernel.position p fd)
    · intro st s' hst
      exact fileRound_spec hkeeps hwf.blocks_valid hs ht hf And.left hst
    · refine ⟨rfl, (by decide : 0 < bufsize), 0, [], ?_, Nat.zero_le _, fun _ => rfl,
        fun _ => Or.inl rfl, fun hc => ⟨hc.2, [], rfl, List.not_mem_nil, List.not_mem_nil,
          fun j hj => absurd hj (Nat.not_lt_zero j), fun m _ _ => rfl⟩⟩
      rw [List.append_nil]
      exact hstart
    · rw [hstart.position_eq]
      omega
  apply hloop.seq
  rintro r s₂ ⟨rfl, pos, out, ⟨block, args, reads, executed, hfile₂, hsees₂⟩, hprinted⟩
  simp only [if_neg (by decide : ¬ (0 : Int) = -1)]
  have huse : ¬ (Function.update v.fds fd block fd).Free := by
    rw [Function.update_self]
    exact hfile₂.in_use
  have hops : (Function.update v.fds fd block fd).fileOperationsPointer = some .file := by
    rw [Function.update_self]
    exact hfile₂.ops
  apply (ensures_close hsees₂ hkeeps hlow.two_le huse (Or.inl hops)).seq
  rintro r s₃ ⟨rfl, hsees₃⟩
  simp only [if_neg (by decide : ¬ (0 : Int) = -1)]
  apply ensures_pure
  simp only [Function.update_idem] at hsees₃
  exact ⟨rfl, _, reads, executed, args, out, ⟨fd, _, hlow, cleared_free _, rfl⟩, hsees₃,
    fun hnul hbyte => hprinted ⟨hnul, hbyte⟩⟩

/-- Without any data the inner loop ends in its first round. -/
theorem ensures_no_lines {b : Buffer} (hsize : 0 < b.size) :
    Ensures (answer img env) (loop (lineRound sb t.length fb 0 0) 1 (0, b)) s
      fun _ s' => s' = s := by
  have hround : Ensures (answer img env) (lineRound sb t.length fb 0 0 (0, b)) s fun r s' =>
      (∃ b', r = .inr (0, b')) ∧ s' = s := by
    apply Ensures.require (a := 0) rfl
    apply Ensures.require (Buffer.load_of_lt hsize)
    split
    next hmove => exact absurd rfl hmove.2.1
    next =>
      apply Ensures.require (Buffer.store_of_lt hsize 0)
      apply Ensures.require (a := false) rfl
      exact ensures_pure ⟨⟨_, rfl⟩, rfl⟩
  apply hround.seq
  rintro r s' ⟨⟨b', rfl⟩, rfl⟩
  exact ensures_pure rfl

/-- `do_one_file` of the clock prints nothing and closes it. -/
theorem doOneFile_rtc (hkeeps : env.Keeps p) (h : Sees p v s) (hroom : Room v.fds)
    (hs : sb.Holds t) (hf : fb.Holds fname) (hfound : readDentryByName img fname = some dentry)
    (htype : dentry.fileType = typeRtc) (hrtc : ¬ HasRtc v.fds) (stack : Nat → UInt8)
    {rounds : Nat} (hrounds : 0 < rounds) :
    Ensures (answer img env) (doOneFile rounds stack sb fb) s fun r s' =>
      r = 0 ∧ ∃ fds' reads, Reopened v.fds fds' ∧
        Sees p { v with fds := fds', reads := reads } s' := by
  apply Ensures.require hs.strlen
  apply (ensures_open_rtc h hkeeps hf hfound htype hroom hrtc).seq
  rintro ret s₁ ⟨fd, block, hlow, rfl, hops, hflags, hsees₁⟩
  simp only [if_neg (by omega : ¬ (fd.val : Int) = -1)]
  have hblock : (Function.update v.fds fd block fd) = block := Function.update_self _ _ _
  have huse : ¬ (Function.update v.fds fd block fd).Free := by
    rw [hblock, FdBlock.Free, hflags]
    decide
  have hclose : (Function.update v.fds fd block fd).fileOperationsPointer = some .rtc ∧
      (Function.update v.fds fd block fd).flags ≠ 0 := by
    rw [hblock, hflags]
    exact ⟨hops, by decide⟩
  obtain ⟨rounds, rfl⟩ : ∃ n, rounds = n + 1 := ⟨rounds - 1, by omega⟩
  have hloop : Ensures (answer img env)
      (loop (fileRound sb t.length fb fd.val) (rounds + 1) (0, ⟨bufsize + 1, stack⟩)) s₁
      fun r s' => r = 0 ∧ Sees p { v with
        fds := Function.update v.fds fd block
        reads := v.reads + 1 } s' := by
    rw [loop]
    have hread : Ensures (answer img env)
        (fileRound sb t.length fb fd.val (0, ⟨bufsize + 1, stack⟩)) s₁ fun r s' =>
        r = .inr 0 ∧ Sees p { v with
          fds := Function.update v.fds fd block
          reads := v.reads + 1 } s' := by
      apply (ensures_read_rtc hsees₁ hkeeps huse hclose.1 (i := 0) (n := bufsize)
        (b := ⟨bufsize + 1, stack⟩) (by show 0 + bufsize ≤ bufsize + 1; omega)).seq
      rintro ⟨cnt, b⟩ s₂ ⟨hcnt, hfilled, hsees₂⟩
      simp only at hcnt
      subst hcnt
      have hsize : 0 < b.size := by
        rw [hfilled.size_eq]
        exact Nat.succ_pos bufsize
      simp only [if_neg (by decide : ¬ (0 : Int) = -1)]
      apply Ensures.require (a := 0) rfl
      apply (ensures_no_lines hsize).seq
      rintro st s₃ rfl
      exact ensures_pure ⟨rfl, hsees₂⟩
    apply hread.seq
    rintro r s₂ ⟨rfl, hsees₂⟩
    exact ensures_pure ⟨rfl, hsees₂⟩
  apply hloop.seq
  rintro r s₂ ⟨rfl, hsees₂⟩
  simp only [if_neg (by decide : ¬ (0 : Int) = -1)]
  apply (ensures_close hsees₂ hkeeps hlow.two_le huse (Or.inr (Or.inr hclose))).seq
  rintro r s₃ ⟨rfl, hsees₃⟩
  simp only [if_neg (by decide : ¬ (0 : Int) = -1)]
  apply ensures_pure
  simp only [Function.update_idem] at hsees₃
  exact ⟨rfl, _, v.reads + 1, ⟨fd, _, hlow, cleared_free _, rfl⟩, hsees₃⟩

end OneFile

/-! ## The directory -/

/-- The directory is open, in front of the entries `rest`, and nothing else. -/
structure OnlyDir (img : FsImage) (fdd : Fin 8) (rest : List Nat) (fds : FdTable) : Prop where
  two_le : 2 ≤ fdd
  before : BeforeEntries img (fds fdd) rest
  ops : (fds fdd).fileOperationsPointer = some .dir
  closed : ∀ i : Fin 8, 2 ≤ i → i ≠ fdd → (fds i).Free

section Directory

variable {img : FsImage} {fdd : Fin 8} {rest : List Nat} {fds fds' : FdTable}

theorem OnlyDir.room (h : OnlyDir img fdd rest fds) : Room fds := by
  rcases eq_or_ne fdd 2 with rfl | hne
  · exact ⟨3, by decide, h.closed 3 (by decide) (by decide)⟩
  · exact ⟨2, le_rfl, h.closed 2 le_rfl hne.symm⟩

theorem OnlyDir.no_rtc (h : OnlyDir img fdd rest fds) : ¬ HasRtc fds := by
  rintro ⟨i, hi, huse, hops⟩
  rcases eq_or_ne i fdd with rfl | hne
  · rw [h.ops] at hops
    cases hops
  · exact huse (h.closed i hi hne)

/-- A file that has been opened and closed again leaves the directory where it was. -/
theorem OnlyDir.reopened (h : OnlyDir img fdd rest fds) (hfds : Reopened fds fds') :
    OnlyDir img fdd rest fds' := by
  obtain ⟨fd, b, hlow, hfree, rfl⟩ := hfds
  have hne : fdd ≠ fd := by
    rintro rfl
    exact h.before.in_use hlow.free
  have hdir : Function.update fds fd b fdd = fds fdd := Function.update_of_ne hne _ _
  constructor
  case two_le => exact h.two_le
  case before => rw [hdir]; exact h.before
  case ops => rw [hdir]; exact h.ops
  case closed =>
    intro i hi hid
    rcases eq_or_ne i fd with rfl | hif
    · rw [Function.update_self]
      exact hfree
    · rw [Function.update_of_ne hif]
      exact h.closed i hi hid

/-- The directory moves on. -/
theorem OnlyDir.advance (h : OnlyDir img fdd rest fds) {block : FdBlock} {rest' : List Nat}
    (hbefore : BeforeEntries img block rest') (hops : block.fileOperationsPointer = some .dir) :
    OnlyDir img fdd rest' (Function.update fds fdd block) where
  two_le := h.two_le
  before := by rw [Function.update_self]; exact hbefore
  ops := by rw [Function.update_self]; exact hops
  closed := fun i hi hne => by rw [Function.update_of_ne hne]; exact h.closed i hi hne

end Directory

/-- The entries that `grep` can go through: its own name begins the one of a directory. -/
def Searchable (img : FsImage) (q : Nat) : Prop :=
  (img.dirEntries q).filename 0 = 46 ∨ (img.dirEntries q).fileType = typeFile ∨
    (img.dirEntries q).fileType = typeRtc

instance (img : FsImage) (q : Nat) : Decidable (Searchable img q) :=
  inferInstanceAs (Decidable (_ ∨ _ ∨ _))

/-- What `grep` prints for an entry: for a regular file whose name does not begin with a dot the
lines with a match, and nothing for another entry. -/
def EntryPrinted (img : FsImage) (t : List UInt8) (q : Nat) (out : List UInt8) : Prop :=
  if (img.dirEntries q).filename 0 ≠ 46 ∧ (img.dirEntries q).fileType = typeFile then
    (0 : UInt8) ∉ img.content (img.dirEntries q).inodeNum →
      Grepped (img.content (img.dirEntries q).inodeNum) t (img.dirEntries q).name out
  else out = []

/-- For a short file without `NUL` these are the matches of the whole text. -/
theorem EntryPrinted.eq_of_short {img : FsImage} {t : List UInt8} {q : Nat} {out : List UInt8}
    (h : EntryPrinted img t q out)
    (hnul : (0 : UInt8) ∉ img.content (img.dirEntries q).inodeNum)
    (hshort : (img.content (img.dirEntries q).inodeNum).length < bufsize) :
    out = if (img.dirEntries q).filename 0 ≠ 46 ∧ (img.dirEntries q).fileType = typeFile then
      grepText t (img.dirEntries q).name [] (img.content (img.dirEntries q).inodeNum) else [] := by
  rw [EntryPrinted] at h
  split
  next hfile =>
    rw [if_pos hfile] at h
    obtain ⟨m, -, -, hall, rfl⟩ := h hnul
    rw [hall hshort, List.take_length]
  next hother => rwa [if_neg hother] at h

/-- The rounds of `grep`: the entries in front of the descriptor have been searched. -/
def GrepPrinted (img : FsImage) (p : Pid) (fdd : Fin 8) (t before : List UInt8)
    (st : Nat × Buffer) (s : UserProcess) : Prop :=
  st.2.size = sbufsize ∧ ∃ passed rest outs fds args reads executed,
    namedFrom img 0 = passed ++ rest ∧ List.Forall₂ (EntryPrinted img t) passed outs ∧
      OnlyDir img fdd rest fds ∧ Sees p ⟨fds, args, reads, before ++ outs.flatten, executed⟩ s

section Walk

variable {img : FsImage} {env : Environment} {p : Pid} {s : UserProcess} {fdd : Fin 8}
  {t before : List UInt8} {sb : Buffer}

/-- One more entry has been searched. -/
theorem grepPrinted_snoc {passed rest : List Nat} {outs : List (List UInt8)} {q : Nat}
    {out : List UInt8} {fds : FdTable} {args : Nat → UInt8} {reads : Nat}
    {executed : List CString} {n : Nat} {b : Buffer} (hsize : b.size = sbufsize)
    (hsplit : namedFrom img 0 = passed ++ q :: rest)
    (hprinted : List.Forall₂ (EntryPrinted img t) passed outs) (hout : EntryPrinted img t q out)
    (hdir : OnlyDir img fdd rest fds)
    (hsees : Sees p ⟨fds, args, reads, (before ++ outs.flatten) ++ out, executed⟩ s) :
    GrepPrinted img p fdd t before (n, b) s := by
  refine ⟨hsize, passed ++ [q], rest, outs ++ [out], fds, args, reads, executed, ?_, ?_, hdir, ?_⟩
  · rw [hsplit, List.append_assoc]
    rfl
  · exact List.rel_append hprinted (List.Forall₂.cons hout List.Forall₂.nil)
  · rw [List.flatten_append, List.flatten_singleton, ← List.append_assoc]
    exact hsees

theorem grepRound_spec (hwf : img.WellFormed) (himg : img.Listed)
    (hdistinct : ((namedFrom img 0).map fun q => (img.dirEntries q).name).Nodup)
    (hall : ∀ q ∈ namedFrom img 0, Searchable img q) (hkeeps : env.Keeps p) (hs : sb.Holds t)
    (ht : t ≠ []) {stack : Nat → Nat → UInt8} (hstack : ∀ n, stack (n + 2) bufsize ≠ 10)
    {rounds : Nat} (hrounds : ∀ q ∈ namedFrom img 0,
      (img.content (img.dirEntries q).inodeNum).length < rounds) {st : Nat × Buffer}
    (h : GrepPrinted img p fdd t before st s) :
    Ensures (answer img env) (grepRound rounds stack sb fdd.val st) s
      (AfterRound (GrepPrinted img p fdd t before)
        (fun _ s => (s.kernel.fdTableOf p fdd).flags.toNat)
        (fun status s' => status = 0 ∧ ∃ outs,
          List.Forall₂ (EntryPrinted img t) (namedFrom img 0) outs ∧
            s'.written = before ++ outs.flatten)
        ((s.kernel.fdTableOf p fdd).flags.toNat)) := by
  obtain ⟨n, buf⟩ := st
  obtain ⟨hsize, passed, rest, outs, fds, args, reads, executed, hsplit, hprinted, hdir, hsees⟩ := h
  simp only at hsize
  have hbuf : sbufsize = 33 := rfl
  have hname : filenameSize = 32 := rfl
  -- the measure is the number of the entries that are left
  have hleft : (s.kernel.fdTableOf p fdd).flags.toNat = rest.length := by
    rw [hsees.fds]
    exact hdir.before.flags
  have hread := ensures_read_dir hsees hkeeps himg hdir.before hdir.ops (b := buf) (i := 0)
    (by omega)
  have hrequest : ((filenameSize : Nat) : Int) = (sbufsize : Int) - 1 := rfl
  rw [hrequest] at hread
  apply hread.seq
  rintro ⟨cnt, buf'⟩ s₁ ⟨text, block, hcnt, hfilled, hops, hsees₁, hnext⟩
  simp only at hcnt hfilled
  have hsize' : buf'.size = sbufsize := hfilled.size_eq.trans hsize
  cases rest with
  | nil =>
      obtain rfl : text = [] := hnext
      simp only [hcnt, List.length_nil, Nat.cast_zero, if_true]
      apply ensures_pure
      rw [hsplit, List.append_nil]
      exact ⟨rfl, outs, hprinted, hsees₁.written⟩
  | cons q rest =>
      obtain ⟨rfl, hbefore⟩ := hnext
      have hmem : q ∈ namedFrom img 0 := by
        rw [hsplit]
        exact List.mem_append_right _ List.mem_cons_self
      have hlen : (img.dirEntries q).name.length ≤ filenameSize := PaddedText.length_read_le _ _ _
      have hpos : 0 < (img.dirEntries q).name.length := length_name_pos (mem_namedFrom.mp hmem).2.2
      have hclean : (0 : UInt8) ∉ (img.dirEntries q).name := PaddedText.not_mem_read _ _ _
      have hdir₁ : OnlyDir img fdd rest (Function.update fds fdd block) := hdir.advance hbefore hops
      have hfirst : buf'.bytes 0 = (img.dirEntries q).filename 0 := by
        have hbyte := hfilled.text_eq 0 hpos
        rw [Nat.zero_add] at hbyte
        rw [hbyte]
        exact PaddedText.getD_read hpos 0
      have hload : buf'.load ((0 : Nat) : Int) = some (buf'.bytes 0) :=
        Buffer.load_of_lt (by omega)
      have hless : ∀ {fds' args' reads' written executed'} {s' : UserProcess},
          OnlyDir img fdd rest fds' → Sees p ⟨fds', args', reads', written, executed'⟩ s' →
          (s'.kernel.fdTableOf p fdd).flags.toNat < (s.kernel.fdTableOf p fdd).flags.toNat := by
        intro fds' args' reads' written executed' s' hdir' hsees'
        rw [hleft, hsees'.fds, hdir'.before.flags]
        exact Nat.lt_succ_self _
      simp only [hcnt, if_neg (by omega : ¬ ((img.dirEntries q).name.length : Int) = 0),
        if_neg (by omega : ¬ ((img.dirEntries q).name.length : Int) = -1)]
      apply Ensures.require hload
      rw [hfirst]
      by_cases hdot : 46 = (img.dirEntries q).filename 0
      · rw [if_pos hdot]
        apply ensures_pure
        have hout : EntryPrinted img t q [] := by
          rw [EntryPrinted, if_neg fun h => h.1 hdot.symm]
        exact ⟨grepPrinted_snoc hsize' hsplit hprinted hout hdir₁
          (by rw [List.append_nil]; exact hsees₁), hless hdir₁ hsees₁⟩
      · rw [if_neg hdot]
        have hfound : readDentryByName img (img.dirEntries q).name = some (img.dirEntries q) :=
          lookup_of_named hdistinct hmem (text_of_clean hclean).symm
        have hholds := hfilled.terminated hclean (by omega)
        apply Ensures.require (Buffer.store_of_lt (by omega) 0)
        rcases (hall q hmem).resolve_left (Ne.symm hdot) with hfile | hrtc
        · apply (doOneFile_spec hwf hkeeps hsees₁ hdir₁.room hs ht hholds hfound hfile
            (stack (n + 2)) (hrounds q hmem)).seq
          rintro r s₂ ⟨rfl, fds₂, reads₂, executed₂, args₂, out, hreopened, hsees₂, hgrepped⟩
          simp only [ne_eq, not_true_eq_false, if_false]
          apply ensures_pure
          have hout : EntryPrinted img t q out := by
            rw [EntryPrinted, if_pos ⟨Ne.symm hdot, hfile⟩]
            exact fun hnul => hgrepped hnul (hstack n)
          exact ⟨grepPrinted_snoc hsize' hsplit hprinted hout (hdir₁.reopened hreopened) hsees₂,
            hless (hdir₁.reopened hreopened) hsees₂⟩
        · apply (doOneFile_rtc hkeeps hsees₁ hdir₁.room hs hholds hfound hrtc hdir₁.no_rtc
            (stack (n + 2)) ((Nat.zero_le _).trans_lt (hrounds q hmem))).seq
          rintro r s₂ ⟨rfl, fds₂, reads₂, hreopened, hsees₂⟩
          simp only [ne_eq, not_true_eq_false, if_false]
          apply ensures_pure
          have hout : EntryPrinted img t q [] := by
            have hnot : (img.dirEntries q).fileType ≠ typeFile := by
              rw [hrtc]
              decide
            rw [EntryPrinted, if_neg fun h => hnot h.2]
          exact ⟨grepPrinted_snoc hsize' hsplit hprinted hout (hdir₁.reopened hreopened)
            (by rw [List.append_nil]; exact hsees₂), hless (hdir₁.reopened hreopened) hsees₂⟩

/-- `grep` ends with status 0 and prints, entry by entry of the directory, the lines with a match of
the regular files whose names do not begin with a dot. A file of at least 1024 bytes may miss the
matches behind a prefix, which leaves out less than 1024 bytes. -/
theorem ensures_grep {v : View} (hwf : img.WellFormed) (himg : img.Listed)
    (hdistinct : ((namedFrom img 0).map fun q => (img.dirEntries q).name).Nodup)
    (hall : ∀ q ∈ namedFrom img 0, Searchable img q) {dentry : DirEntry}
    (hfound : readDentryByName img [46] = some dentry) (htype : dentry.fileType = typeDir)
    (hkeeps : env.Keeps p) (hfresh : Fresh p v s) (hargs : (argumentOf v.args).length < bufsize)
    (ht : argumentOf v.args ≠ []) {stack : Nat → Nat → UInt8}
    (hstack : ∀ n, stack (n + 2) bufsize ≠ 10) {rounds : Nat}
    (hentries : (namedFrom img 0).length < rounds)
    (hrounds : ∀ q ∈ namedFrom img 0,
      (img.content (img.dirEntries q).inodeNum).length < rounds) :
    Ensures (answer img env) (grep rounds stack) s fun status s' =>
      status = 0 ∧ ∃ outs,
        List.Forall₂ (EntryPrinted img (argumentOf v.args)) (namedFrom img 0) outs ∧
          s'.written = v.written ++ outs.flatten := by
  have hroom : Room v.fds := hfresh.room
  obtain ⟨hsees, hclosed⟩ := hfresh
  have hdot : (literal ".").Holds [46] := literal_holds (by decide)
  apply (ensures_getargs hsees hkeeps rfl ht (b := ⟨bufsize, stack 0⟩) (n := bufsize)
    (Nat.le_of_lt hargs) hargs).seq
  rintro ⟨r, search⟩ s₁ ⟨rfl, hsize, hholds, args, hsees₁⟩
  simp only [ne_eq, not_true_eq_false, if_false]
  apply (ensures_open_dir hsees₁ hkeeps hdot hfound htype hroom).seq
  rintro ret s₂ ⟨fd, hlow, rfl, hsees₂⟩
  simp only [if_neg (by omega : ¬ (fd.val : Int) = -1)]
  have hbefore : BeforeEntries img ⟨some .dir, 0, 0, img.numDirEntries⟩ (namedFrom img 0) :=
    ⟨Nat.zero_le _, rfl, himg.count⟩
  have hdir : OnlyDir img fd (namedFrom img 0)
      (Function.update v.fds fd ⟨some .dir, 0, 0, img.numDirEntries⟩) := by
    constructor
    case two_le => exact hlow.two_le
    case before => rw [Function.update_self]; exact hbefore
    case ops => rw [Function.update_self]
    case closed =>
      intro i hi hne
      rw [Function.update_of_ne hne]
      exact hclosed i hi
  apply ensures_loop (GrepPrinted img p fd (argumentOf v.args) v.written)
    (fun _ s => (s.kernel.fdTableOf p fd).flags.toNat)
  · intro st t h
    exact grepRound_spec hwf himg hdistinct hall hkeeps hholds ht hstack hrounds h
  · refine ⟨rfl, [], namedFrom img 0, [], _, args, v.reads, v.executed, rfl, List.Forall₂.nil,
      hdir, ?_⟩
    rw [List.flatten_nil, List.append_nil]
    exact hsees₂
  · rw [hsees₂.fds, hdir.before.flags]
    exact hentries

end Walk

end Ece391Os
