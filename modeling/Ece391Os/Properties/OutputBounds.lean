import Ece391Os.Model.Processes
import Ece391Os.Model.TextStores
import Ece391Os.Library.EventRun
import Ece391Os.Properties.TextOutput

/-!
# Output and the edge of the screen

`next_line` scrolls in the last row, but `putc` increments the row at every newline and carriage
return without looking at it. Output stays on the screen exactly if no line end comes to `putc` in
the last row (`stays_iff`): in a text of the kernel, which has no other way to end a line, and for
a carriage return that a program writes. Otherwise the row is 25 or more, the next character is
stored below the screen, and the row starts again at the top.
-/

set_option autoImplicit false

namespace Ece391Os

open EventRun

/-- A cell of the screen. -/
def InCells (i : Int) : Prop := 0 ≤ i ∧ i < numRows * numCols

instance (i : Int) : Decidable (InCells i) := inferInstanceAs (Decidable (_ ∧ _))

/-! ## What is not stored to stays -/

namespace Video

section Frames

variable {v : Video} {i : Int} {c : UInt8}

theorem page_nextLine_of_not_mem (h : i ∉ v.nextLineStores) :
    v.nextLine.view.page i = v.view.page i := by
  have hy : v.view.y = v.screenY := rfl
  rw [view_nextLine, hy]
  rw [nextLineStores] at h
  split
  next hlast =>
    rw [if_pos hlast] at h
    have hout : ¬ (0 ≤ i ∧ i < numRows * numCols) := by
      rintro ⟨hlow, hhigh⟩
      apply h
      refine List.mem_map.mpr ⟨i.toNat, List.mem_range.mpr ?_, Int.toNat_of_nonneg hlow⟩
      exact (Int.toNat_lt_toNat (Int.lt_of_le_of_lt hlow hhigh)).mpr hhigh
    have hcols : numCols = 80 := rfl
    have hcells : numRows * numCols = 2000 := rfl
    rw [view_scroll]
    dsimp only
    rw [if_neg (by omega), if_neg (by omega)]
  · rfl

theorem page_putc_of_not_mem (h : i ∉ v.putcStores c) : (v.putc c).view.page i = v.view.page i := by
  rw [putcStores] at h
  rw [view_putc]
  split
  · rfl
  next hchar =>
    rw [if_neg hchar] at h
    exact Function.update_of_ne (fun heq => h (List.mem_singleton.mpr heq)) _ _

theorem page_writeChar_of_not_mem (h : i ∉ v.writeCharStores c) :
    (v.writeChar c).view.page i = v.view.page i := by
  rw [writeCharStores] at h
  simp only [writeChar]
  by_cases hnewline : c = 10
  · rw [if_pos hnewline] at h ⊢
    exact page_nextLine_of_not_mem h
  · rw [if_neg hnewline] at h ⊢
    by_cases hlast : v.screenX = numCols - 1
    · rw [if_pos hlast] at h ⊢
      obtain ⟨hputc, hnext⟩ := not_or.mp (fun hmem => h (List.mem_append.mpr hmem))
      exact (page_nextLine_of_not_mem hnext).trans (page_putc_of_not_mem hputc)
    · rw [if_neg hlast] at h ⊢
      exact page_putc_of_not_mem h

/-- A text changes no cell but those that it stores to. -/
theorem page_of_not_mem_textStores {op : Video → UInt8 → Video} {stores : Video → UInt8 → List Int}
    (hop : ∀ v c, i ∉ stores v c → (op v c).view.page i = v.view.page i) {text : List UInt8}
    (h : i ∉ textStores op stores v text) : (text.foldl op v).view.page i = v.view.page i := by
  induction text generalizing v with
  | nil => rfl
  | cons c text ih =>
      obtain ⟨hhere, hrest⟩ := not_or.mp (fun hmem => h (List.mem_append.mpr hmem))
      exact (ih hrest).trans (hop v c hhere)

end Frames

end Video

/-- A call changes no cell of the page that `video_mem` leads to but those that it stores to. -/
theorem OutputCall.page_of_not_mem_stores {k : Kernel} {call : OutputCall} {i : Int}
    (h : i ∉ call.stores k) : (call.run k).video.view.page i = k.video.view.page i := by
  cases call with
  | terminalWrite buf =>
      simp only [OutputCall.run, Ece391Os.terminalWrite]
      split
      · rfl
      · exact Video.page_of_not_mem_textStores (fun _ _ => Video.page_writeChar_of_not_mem) h
  | puts text => exact Video.page_of_not_mem_textStores (fun _ _ => Video.page_putc_of_not_mem) h
  | nextLine => exact Video.page_nextLine_of_not_mem h

/-! ## Calls that stay on the screen -/

/-- A call stores to cells of the screen only and leaves the cursor on it. -/
structure Stays (k : Kernel) (call : OutputCall) (k' : Kernel) : Prop where
  cells : ∀ i ∈ call.stores k, InCells i
  cursor : OnScreen k'.video.cursor

/-- The bytes at which `putc` ends a line. -/
def lineEnds (text : List UInt8) : Nat := text.countP fun c => c = 10 ∨ c = 13

/-- The place behind a byte that a program writes, on a page of 80 columns without a last line. A
carriage return ends the line, and in the last column also the one after it. -/
def nextPlace (pos : Nat) (c : UInt8) : Nat :=
  if c = 10 then 80 * (pos / 80 + 1)
  else if c = 13 then 80 * (pos / 80 + if pos % 80 = 79 then 2 else 1)
  else pos + 1

/-- No carriage return stands in line 24 or below, from place `pos` on. -/
def ReturnsAbove : Nat → List UInt8 → Prop
  | _, [] => True
  | pos, c :: text => (c = 13 → pos < 80 * 24) ∧ ReturnsAbove (nextPlace pos c) text

/-- There is room for all the line ends of a call that come to `putc`. -/
def HasRoom (k : Kernel) (call : OutputCall) (_ : Kernel) : Prop :=
  match call with
  | .terminalWrite buf => ReturnsAbove (80 * k.video.screenY + k.video.screenX).toNat buf
  | .puts text => k.video.screenY + lineEnds text ≤ 24
  | .nextLine => True

namespace Video

/-- One byte after another. -/
def byteStep (op : Video → UInt8 → Video) (v : Video) (c : UInt8) : Option Video := some (op v c)

/-- The cursor is at the start of a row below the screen. -/
structure Below (v : Video) : Prop where
  x : v.screenX = 0
  y : 25 ≤ v.screenY

section Bytes

variable {v : Video} {c : UInt8}

theorem not_onScreen_of_below (h : v.Below) : ¬ OnScreen v.cursor := by
  intro hon
  have hlt : v.screenY < 25 := hon.y_lt
  have hge := h.y
  omega

theorem putcStores_below (h : v.Below) (hsafe : ∀ i ∈ v.putcStores c, InCells i) :
    c = 10 ∨ c = 13 := by
  by_contra hchar
  rw [putcStores, if_neg hchar] at hsafe
  have hcell : 80 * v.screenY + v.screenX < 2000 := (hsafe _ (List.mem_singleton_self _)).2
  have hy := h.y
  have hx := h.x
  omega

/-- Below the screen `putc` can only end one more line. -/
theorem below_putc (h : v.Below) (hsafe : ∀ i ∈ v.putcStores c, InCells i) : (v.putc c).Below := by
  have hend := putcStores_below h hsafe
  have hy := h.y
  rw [putc, if_pos hend]
  exact ⟨rfl, by show 25 ≤ v.screenY + 1; omega⟩

theorem below_nextLine (h : v.Below) : v.nextLine.Below := by
  have hcursor := cursor_nextLine v
  have hy := h.y
  rw [if_pos (by show v.screenY ≥ 24; omega)] at hcursor
  refine ⟨congrArg Prod.fst hcursor, ?_⟩
  show 25 ≤ v.nextLine.cursor.2
  rw [hcursor]
  exact hy

theorem below_writeChar (h : v.Below) (hsafe : ∀ i ∈ v.writeCharStores c, InCells i) :
    (v.writeChar c).Below := by
  have hx := h.x
  rw [writeCharStores] at hsafe
  simp only [writeChar]
  have hlast : v.screenX ≠ numCols - 1 := by
    rw [hx]
    decide
  split
  · exact below_nextLine h
  next hnewline =>
    rw [if_neg hnewline, if_neg hlast] at hsafe
    exact below_putc h hsafe

/-- The place to which a character on the screen is stored. -/
theorem inCells_putcStores (h : OnScreen v.cursor) : ∀ i ∈ v.putcStores c, InCells i := by
  have hx : 0 ≤ v.screenX := h.x_nonneg
  have hx' : v.screenX < 80 := h.x_lt
  have hy : 0 ≤ v.screenY := h.y_nonneg
  have hy' : v.screenY < 25 := h.y_lt
  intro i hi
  rw [putcStores] at hi
  split at hi
  · cases hi
  · rw [List.mem_singleton] at hi
    subst hi
    show 0 ≤ 80 * v.screenY + v.screenX ∧ 80 * v.screenY + v.screenX < 2000
    omega

theorem inCells_nextLineStores (v : Video) : ∀ i ∈ v.nextLineStores, InCells i := by
  intro i hi
  rw [nextLineStores] at hi
  split at hi
  · obtain ⟨n, hn, rfl⟩ := List.mem_map.mp hi
    have hlt : n < 2000 := List.mem_range.mp hn
    show 0 ≤ (n : Int) ∧ (n : Int) < 2000
    omega
  · cases hi

theorem inCells_writeCharStores (h : OnScreen v.cursor) :
    ∀ i ∈ v.writeCharStores c, InCells i := by
  intro i hi
  rw [writeCharStores] at hi
  split at hi
  · exact inCells_nextLineStores v i hi
  · split at hi
    · rcases List.mem_append.mp hi with hput | hnext
      · exact inCells_putcStores h i hput
      · exact inCells_nextLineStores _ i hnext
    · exact inCells_putcStores h i hi

/-- `putc` on the screen. -/
theorem cursor_putc_onScreen (h : OnScreen v.cursor) : (v.putc c).cursor =
    if c = 10 ∨ c = 13 then (0, v.screenY + 1)
    else (if v.screenX = 79 then 0 else v.screenX + 1, v.screenY) := by
  have hx : 0 ≤ v.view.x := h.x_nonneg
  split
  next hend =>
    rw [cursor_putc, putCursor, if_pos hend]
    rfl
  next hchar =>
    have hview := view_putc_char (v := v) (c := c) (not_or.mp hchar) (by omega) h.x_lt h.y_nonneg
      h.y_lt
    exact Prod.ext (congrArg View.x hview) (congrArg View.y hview)

/-- A byte of a text of the kernel in the last row. -/
theorem keep_putc (h : OnScreen v.cursor) (hroom : c = 10 ∨ c = 13 → v.screenY < 24) :
    OnScreen (v.putc c).cursor := by
  have hx : 0 ≤ v.screenX := h.x_nonneg
  have hx' : v.screenX < 80 := h.x_lt
  have hy : 0 ≤ v.screenY := h.y_nonneg
  have hy' : v.screenY < 25 := h.y_lt
  rw [cursor_putc_onScreen h]
  split
  next hend =>
    have hrow := hroom hend
    exact onScreen_row (by omega) (by show v.screenY + 1 < 25; omega)
  next hchar =>
    refine ⟨?_, ?_, hy, hy'⟩
    · dsimp only
      split <;> omega
    · show (if v.screenX = 79 then 0 else v.screenX + 1) < 80
      split <;> omega

theorem fall_putc (hroom : ¬ (c = 10 ∨ c = 13 → v.screenY < 24)) : (v.putc c).Below := by
  obtain ⟨hend, hrow⟩ := Classical.not_imp.mp hroom
  rw [putc, if_pos hend]
  exact ⟨rfl, by show 25 ≤ v.screenY + 1; omega⟩

/-- A byte of a program in the last row. -/
theorem keep_writeChar (h : OnScreen v.cursor) (hroom : c = 13 → v.screenY < 24) :
    OnScreen (v.writeChar c).cursor := by
  rw [cursor_writeChar]
  exact h.moveCursor hroom

theorem fall_writeChar (hroom : ¬ (c = 13 → v.screenY < 24)) : (v.writeChar c).Below := by
  obtain ⟨hreturn, hrow⟩ := Classical.not_imp.mp hroom
  have hbelow : (v.putc c).Below := fall_putc fun hall => hrow (hall (.inr hreturn))
  have hnewline : c ≠ 10 := by
    rw [hreturn]
    decide
  rw [writeChar, if_neg hnewline]
  split
  · exact below_nextLine hbelow
  · exact hbelow

end Bytes

/-! ## Texts -/

section Texts

variable {v : Video} {text : List UInt8}

theorem inCells_textStores_iff {op : Video → UInt8 → Video} {stores : Video → UInt8 → List Int} :
    (∀ i ∈ textStores op stores v text, InCells i) ↔
      AllSteps (byteStep op) (fun v c _ => ∀ i ∈ stores v c, InCells i) v text := by
  induction text generalizing v with
  | nil => simp [textStores, AllSteps]
  | cons c text ih =>
      simp only [textStores, List.mem_append, or_imp, forall_and, AllSteps, byteStep,
        Option.some.injEq, forall_eq']
      rw [ih]

/-- A text stays on the screen exactly if none of its bytes falls below it. -/
theorem stays_text_iff (op : Video → UInt8 → Video) (stores : Video → UInt8 → List Int)
    (room : Video → UInt8 → Prop) (text : List UInt8)
    (hcells : ∀ v c, OnScreen v.cursor → ∀ i ∈ stores v c, InCells i)
    (hkeep : ∀ v c, OnScreen v.cursor → room v c → OnScreen (op v c).cursor)
    (hfall : ∀ v c, OnScreen v.cursor → ¬ room v c → (op v c).Below)
    (hbelow : ∀ v c, v.Below → (∀ i ∈ stores v c, InCells i) → (op v c).Below)
    (h : OnScreen v.cursor) :
    ((∀ i ∈ textStores op stores v text, InCells i) ∧ OnScreen (text.foldl op v).cursor) ↔
      AllSteps (byteStep op) (fun v c _ => room v c) v text := by
  rw [inCells_textStores_iff]
  refine allSteps_and_iff_of_trap (I := fun v : Video => OnScreen v.cursor) (T := Below)
    ?_ ?_ ?_ (fun v => not_onScreen_of_below) h (runFrom_total op v text)
  · rintro s c s' hs hstep hroom
    obtain rfl := Option.some.inj hstep
    exact ⟨hcells s c hs, hkeep s c hs hroom⟩
  · rintro s c s' hs hstep hroom
    obtain rfl := Option.some.inj hstep
    exact hfall s c hs hroom
  · rintro s c s' hs hstep hsafe
    obtain rfl := Option.some.inj hstep
    exact hbelow s c hs hsafe

/-- The rows that a text of the kernel takes. -/
theorem allSteps_putc_iff (h : OnScreen v.cursor) :
    AllSteps (byteStep putc) (fun v c _ => c = 10 ∨ c = 13 → v.screenY < 24) v text ↔
      v.screenY + lineEnds text ≤ 24 := by
  induction text generalizing v with
  | nil =>
      have hy' : v.screenY < 25 := h.y_lt
      simp only [AllSteps, true_iff, lineEnds, List.countP_nil]
      omega
  | cons c text ih =>
      have hrow : (v.putc c).screenY = if c = 10 ∨ c = 13 then v.screenY + 1 else v.screenY := by
        have hcursor := congrArg Prod.snd (cursor_putc_onScreen (c := c) h)
        rw [apply_ite Prod.snd] at hcursor
        exact hcursor
      have hcount : lineEnds (c :: text) = lineEnds text + if c = 10 ∨ c = 13 then 1 else 0 := by
        simp [lineEnds, List.countP_cons]
      have hy' : v.screenY < 25 := h.y_lt
      simp only [AllSteps, byteStep, Option.some.injEq, forall_eq', hcount]
      by_cases hroom : c = 10 ∨ c = 13 → v.screenY < 24
      · rw [and_iff_right hroom]
        refine (ih (keep_putc h hroom)).trans ?_
        rw [hrow]
        split <;> omega
      · -- no row is left for the line that ends here
        obtain ⟨hend, hrow'⟩ := Classical.not_imp.mp hroom
        rw [if_pos hend]
        constructor
        · intro hall
          exact absurd hall.1 hroom
        · intro hcount'
          omega

/-- The cursor stands at a place of the page without a last line, of which the screen shows the
lines up to it. -/
structure At (v : Video) (pos : Nat) : Prop where
  x : v.screenX = (pos % 80 : Nat)
  y : v.screenY = (min 24 (pos / 80) : Nat)

theorem at_of_onScreen (h : OnScreen v.cursor) :
    v.At (80 * v.screenY + v.screenX).toNat := by
  have hx : 0 ≤ v.screenX := h.x_nonneg
  have hx' : v.screenX < 80 := h.x_lt
  have hy : 0 ≤ v.screenY := h.y_nonneg
  have hy' : v.screenY < 25 := h.y_lt
  constructor <;> omega

theorem at_nextLine {line : Nat} (hy : v.screenY = (min 24 line : Nat)) :
    v.nextLine.At (80 * (line + 1)) := by
  have hcursor := cursor_nextLine v
  have hlimit : numRows - 1 = 24 := rfl
  rw [hlimit] at hcursor
  have hx : v.nextLine.cursor.1 = 0 := by
    rw [hcursor]
    split <;> rfl
  have hrow : v.nextLine.cursor.2 = (min 24 (line + 1) : Nat) := by
    rw [hcursor]
    split
    next hlast =>
      dsimp only
      omega
    next hlast =>
      dsimp only
      omega
  refine ⟨hx.trans ?_, hrow.trans ?_⟩ <;> omega

/-- A byte of a program moves the cursor to the next place. -/
theorem at_writeChar {pos : Nat} {c : UInt8} (h : OnScreen v.cursor) (hat : v.At pos)
    (hroom : c = 13 → v.screenY < 24) : (v.writeChar c).At (nextPlace pos c) := by
  have hx := hat.x
  have hy := hat.y
  have hput := cursor_putc_onScreen (c := c) h
  simp only [writeChar, nextPlace]
  by_cases hnewline : c = 10
  · rw [if_pos hnewline, if_pos hnewline]
    exact at_nextLine hy
  · rw [if_neg hnewline, if_neg hnewline]
    have hlast : v.screenX = numCols - 1 ↔ pos % 80 = 79 := by
      rw [hx, show numCols - 1 = 79 from rfl]
      omega
    by_cases hreturn : c = 13
    · -- `putc` starts the next row, and in the last column `next_line` does so once more
      have hrow := hroom hreturn
      rw [if_pos (.inr hreturn)] at hput
      have hrow' : (v.putc c).screenY = (min 24 (pos / 80 + 1) : Nat) :=
        (congrArg Prod.snd hput).trans (by dsimp only; omega)
      rw [if_pos hreturn]
      split
      next hcol =>
        rw [if_pos (hlast.mp hcol)]
        exact at_nextLine hrow'
      next hcol =>
        rw [if_neg fun heq => hcol (hlast.mpr heq)]
        refine ⟨(congrArg Prod.fst hput).trans ?_, hrow'.trans ?_⟩
        · dsimp only
          omega
        · omega
    · rw [if_neg (not_or.mpr ⟨hnewline, hreturn⟩)] at hput
      have hrow' : (v.putc c).screenY = v.screenY := congrArg Prod.snd hput
      rw [if_neg hreturn]
      split
      next hcol =>
        -- the last column: the next place is the first one of the next row
        have hplace : pos + 1 = 80 * (pos / 80 + 1) := by
          have hcol' := hlast.mp hcol
          omega
        rw [hplace]
        exact at_nextLine (hrow'.trans hy)
      next hcol =>
        have hcol' : ¬ pos % 80 = 79 := fun heq => hcol (hlast.mpr heq)
        have hx79 : v.screenX ≠ 79 := by omega
        rw [if_neg hx79] at hput
        refine ⟨(congrArg Prod.fst hput).trans ?_, hrow'.trans (hy.trans ?_)⟩
        · dsimp only
          omega
        · omega

/-- The lines in which a program writes carriage returns. -/
theorem allSteps_writeChar_iff {pos : Nat} (h : OnScreen v.cursor) (hat : v.At pos) :
    AllSteps (byteStep writeChar) (fun v c _ => c = 13 → v.screenY < 24) v text ↔
      ReturnsAbove pos text := by
  induction text generalizing v pos with
  | nil => simp [AllSteps, ReturnsAbove]
  | cons c text ih =>
      have hy := hat.y
      have hline : v.screenY < 24 ↔ pos < 80 * 24 := by omega
      simp only [AllSteps, byteStep, Option.some.injEq, forall_eq', ReturnsAbove, hline]
      constructor
      · rintro ⟨hroom, hrest⟩
        have hroom' : c = 13 → v.screenY < 24 := fun hc => hline.mpr (hroom hc)
        exact ⟨hroom, (ih (keep_writeChar h hroom') (at_writeChar h hat hroom')).mp hrest⟩
      · rintro ⟨hroom, hrest⟩
        have hroom' : c = 13 → v.screenY < 24 := fun hc => hline.mpr (hroom hc)
        exact ⟨hroom, (ih (keep_writeChar h hroom') (at_writeChar h hat hroom')).mpr hrest⟩

end Texts

end Video

/-! ## Calls -/

/-- One call. -/
def outputStep (k : Kernel) (call : OutputCall) : Option Kernel := some (call.run k)

section Calls

variable {k : Kernel}

theorem stays_terminalWrite_iff (h : OnScreen k.video.cursor) (buf : List UInt8) :
    Stays k (.terminalWrite buf) ((OutputCall.terminalWrite buf).run k) ↔
      HasRoom k (.terminalWrite buf) ((OutputCall.terminalWrite buf).run k) := by
  have hvideo : ((OutputCall.terminalWrite buf).run k).video =
      buf.foldl Video.writeChar k.video := by
    simp only [OutputCall.run, terminalWrite]
    split
    next hempty =>
      rw [List.length_eq_zero_iff.mp (by omega : buf.length = 0)]
      rfl
    · rfl
  have htext := Video.stays_text_iff Video.writeChar Video.writeCharStores
    (fun v c => c = 13 → v.screenY < 24) buf
    (fun _ _ => Video.inCells_writeCharStores) (fun _ _ => Video.keep_writeChar)
    (fun _ _ _ => Video.fall_writeChar) (fun _ _ => Video.below_writeChar) h
  rw [Video.allSteps_writeChar_iff h (Video.at_of_onScreen h), ← hvideo] at htext
  exact ⟨fun hstays => htext.mp ⟨hstays.cells, hstays.cursor⟩,
    fun hroom => ⟨(htext.mpr hroom).1, (htext.mpr hroom).2⟩⟩

theorem stays_puts_iff (h : OnScreen k.video.cursor) (text : List UInt8) :
    Stays k (.puts text) ((OutputCall.puts text).run k) ↔
      HasRoom k (.puts text) ((OutputCall.puts text).run k) := by
  have htext := Video.stays_text_iff Video.putc Video.putcStores
    (fun v c => c = 10 ∨ c = 13 → v.screenY < 24) text
    (fun _ _ => Video.inCells_putcStores) (fun _ _ => Video.keep_putc)
    (fun _ _ _ => Video.fall_putc) (fun _ _ => Video.below_putc) h
  rw [Video.allSteps_putc_iff h] at htext
  exact ⟨fun hstays => htext.mp ⟨hstays.cells, hstays.cursor⟩,
    fun hroom => ⟨(htext.mpr hroom).1, (htext.mpr hroom).2⟩⟩

theorem stays_nextLine (h : OnScreen k.video.cursor) :
    Stays k .nextLine (OutputCall.nextLine.run k) := by
  refine ⟨Video.inCells_nextLineStores k.video, ?_⟩
  have hcursor : OnScreen (moveCursor k.video.cursor 10) := h.moveCursor fun heq => by cases heq
  rw [← Video.cursor_writeChar] at hcursor
  exact hcursor

/-- One call stays on the screen exactly if there is room for its line ends. -/
theorem stays_call_iff (h : OnScreen k.video.cursor) (call : OutputCall) :
    Stays k call (call.run k) ↔ HasRoom k call (call.run k) := by
  cases call with
  | terminalWrite buf => exact stays_terminalWrite_iff h buf
  | puts text => exact stays_puts_iff h text
  | nextLine => exact ⟨fun _ => trivial, fun _ => stays_nextLine h⟩

/-- In every sequence of calls, every call stays on the screen exactly if there is room for the line
ends of every call. -/
theorem stays_iff (h : OnScreen k.video.cursor) (calls : List OutputCall) :
    AllSteps outputStep Stays k calls ↔ AllSteps outputStep HasRoom k calls := by
  refine allSteps_iff_of_invariant (I := fun k : Kernel => OnScreen k.video.cursor)
    ?_ ?_ calls h
  · rintro s call s' hs hstep
    obtain rfl := Option.some.inj hstep
    exact stays_call_iff hs call
  · rintro s call s' hs hstep hroom
    obtain rfl := Option.some.inj hstep
    exact ((stays_call_iff hs call).mpr hroom).cursor

end Calls

/-- The cursor at the start of the last row. -/
def lastRow : Kernel :=
  { bootKernel 0 with video := { (bootKernel 0).video with screenX := 0, screenY := 24 } }

theorem stays_lastRow : AllSteps outputStep Stays lastRow [.puts [69, 10]] ↔
    AllSteps outputStep HasRoom lastRow [.puts [69, 10]] :=
  stays_iff (by decide) _

/-- A line of the kernel leaves the row below the screen, and a carriage return of a program brings
the character after it there. -/
theorem not_stays_lastRow :
    OnScreen lastRow.video.cursor ∧
      ¬ AllSteps outputStep Stays lastRow [.puts [69, 10]] ∧
      ((OutputCall.puts [69, 10]).run lastRow).video.screenY = 25 ∧
      ¬ AllSteps outputStep Stays lastRow [.terminalWrite [13, 97]] ∧
      2000 ∈ (OutputCall.terminalWrite [13, 97]).stores lastRow := by
  refine ⟨by decide, fun hall => ?_, by decide, fun hall => ?_, by decide⟩
  · have hcursor := (hall _ rfl).1.cursor
    exact absurd hcursor (by decide)
  · have hcells := (hall _ rfl).1.cells 2000 (by decide)
    exact absurd hcells (by decide)

end Ece391Os
