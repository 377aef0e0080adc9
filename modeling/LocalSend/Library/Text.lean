import Mathlib.Data.List.DropRight
import Mathlib.Tactic.Common

/-! # Text in delimiters

Trimming, cutting at a separator and reading line by line, over an arbitrary alphabet. The
lemmas say what a reader finds in text that was put together from such pieces.
-/

namespace LocalSend.Text

variable {α : Type*}

/-! ## Trimming -/

/-- The text without the spaces at both ends. -/
def trim (space : α → Bool) (text : List α) : List α :=
  (text.dropWhile space).rdropWhile space

/-- Neither end is a space. -/
structure Trimmed (space : α → Bool) (text : List α) : Prop where
  first : ∀ symbol ∈ text.head?, space symbol = false
  last : ∀ symbol ∈ text.getLast?, space symbol = false

variable {space : α → Bool} {text : List α}

theorem trimmed_trim (space : α → Bool) (text : List α) : Trimmed space (trim space text) := by
  constructor
  · intro symbol hsymbol
    have hprefix : trim space text <+: text.dropWhile space := List.rdropWhile_prefix _ _
    obtain ⟨rest, hrest⟩ := hprefix
    have hhead := List.head?_dropWhile_not space text
    rw [← hrest, List.head?_append, Option.mem_def.mp hsymbol] at hhead
    simpa using hhead
  · intro symbol hsymbol
    obtain ⟨hne, rfl⟩ := List.mem_getLast?_eq_getLast hsymbol
    have hlast := List.rdropWhile_last_not space (text.dropWhile space) hne
    exact Bool.eq_false_iff.mpr hlast

/-- A check of both ends by evaluation. -/
theorem trimmed_of_ends (hfirst : text.head?.all (!space ·) = true)
    (hlast : text.getLast?.all (!space ·) = true) : Trimmed space text := by
  constructor
  · intro symbol hsymbol
    rw [Option.mem_def] at hsymbol
    simpa [hsymbol] using hfirst
  · intro symbol hsymbol
    rw [Option.mem_def] at hsymbol
    simpa [hsymbol] using hlast

theorem trim_eq_self (h : Trimmed space text) : trim space text = text := by
  have hfirst : text.dropWhile space = text := by
    cases text with
    | nil => rfl
    | cons symbol rest => exact List.dropWhile_cons_of_neg (by simp [h.first symbol rfl])
  rw [trim, hfirst, List.rdropWhile_eq_self_iff]
  intro hne
  simp [h.last _ (List.getLast?_eq_some_getLast hne)]

/-- A space at the end is trimmed away. -/
theorem trim_space {symbol : α} (hspace : space symbol = true) (text : List α) :
    trim space (text ++ [symbol]) = trim space text := by
  by_cases hall : ∀ other ∈ text, space other = true
  · have hnil : text.dropWhile space = [] := List.dropWhile_eq_nil_iff.mpr hall
    have hnil' : (text ++ [symbol]).dropWhile space = [] := by
      rw [List.dropWhile_append_of_pos hall]
      simp [hspace]
    rw [trim, trim, hnil, hnil']
  · have hsplit : (text ++ [symbol]).dropWhile space = text.dropWhile space ++ [symbol] := by
      rw [List.dropWhile_append]
      have hne : text.dropWhile space ≠ [] := fun hnil => hall (List.dropWhile_eq_nil_iff.mp hnil)
      simp [hne]
    rw [trim, trim, hsplit, List.rdropWhile_concat_pos _ _ _ hspace]

/-- Spaces behind a trimmed text are trimmed away. -/
theorem trim_append (h : Trimmed space text) {symbol : α} (hspace : space symbol = true) :
    trim space (text ++ [symbol]) = text := by
  rw [trim_space hspace, trim_eq_self h]

/-! ## Cutting -/

variable [DecidableEq α] {separator newline : α} {before after : List α}

/-- The text before and behind the first separator. -/
def cut (separator : α) (text : List α) : Option (List α × List α) :=
  match text.dropWhile (· ≠ separator) with
  | [] => none
  | _ :: after => some (text.takeWhile (· ≠ separator), after)

theorem cut_append (h : separator ∉ before) (after : List α) :
    cut separator (before ++ separator :: after) = some (before, after) := by
  have hbefore : ∀ symbol ∈ before, decide (symbol ≠ separator) = true := by
    intro symbol hsymbol
    simp only [decide_eq_true_eq]
    rintro rfl
    exact h hsymbol
  rw [cut, List.dropWhile_append_of_pos hbefore, List.takeWhile_append_of_pos hbefore]
  simp

theorem cut_eq_some (h : cut separator text = some (before, after)) :
    text = before ++ separator :: after ∧ separator ∉ before := by
  unfold cut at h
  split at h
  · cases h
  · rename_i symbol rest hdrop
    cases h
    have hsymbol := List.head?_dropWhile_not (· ≠ separator) text
    rw [hdrop] at hsymbol
    obtain rfl : symbol = separator := by simpa using hsymbol
    constructor
    · rw [← hdrop, List.takeWhile_append_dropWhile]
    · intro hmem
      simpa using List.mem_takeWhile_imp hmem

/-! ## Lines -/

/-- A line as it was read; `ended` says that the input ran out in it. -/
structure Line (α : Type*) where
  text : List α
  ended : Bool
  deriving DecidableEq

/-- The next line with its newline, or the first `capacity` symbols of a longer one, and
the rest of the input. -/
def readLine (newline : α) (capacity : ℕ) (input : List α) : Line α × List α :=
  let line := input.takeWhile (· ≠ newline)
  if capacity ≤ line.length then (⟨input.take capacity, false⟩, input.drop capacity)
  else match input.drop line.length with
  | [] => (⟨line, true⟩, [])
  | symbol :: rest => (⟨line ++ [symbol], false⟩, rest)

/-- Reading on for as many lines as there is fuel. -/
def readLines (newline : α) (capacity : ℕ) : ℕ → List α → List (Line α)
  | 0, _ => []
  | _ + 1, [] => []
  | fuel + 1, symbol :: rest =>
      let (line, rest) := readLine newline capacity (symbol :: rest)
      line :: readLines newline capacity fuel rest

/-- The lines of an input; each takes a symbol, which bounds their number. -/
def lines (newline : α) (capacity : ℕ) (input : List α) : List (Line α) :=
  readLines newline capacity input.length input

theorem readLine_append {capacity : ℕ} (h : newline ∉ text) (hlength : text.length < capacity)
    (rest : List α) :
    readLine newline capacity (text ++ newline :: rest) = (⟨text ++ [newline], false⟩, rest) := by
  have htext : ∀ symbol ∈ text, decide (symbol ≠ newline) = true := by
    intro symbol hsymbol
    simp only [decide_eq_true_eq]
    rintro rfl
    exact h hsymbol
  have hline : (text ++ newline :: rest).takeWhile (· ≠ newline) = text := by
    rw [List.takeWhile_append_of_pos htext]
    simp
  rw [readLine, hline, if_neg (by omega)]
  simp

/-- Text put together from lines is read as these lines. -/
theorem readLines_flatMap {capacity fuel : ℕ} {texts : List (List α)}
    (h : ∀ text ∈ texts, newline ∉ text ∧ text.length < capacity)
    (hfuel : (texts.flatMap (· ++ [newline])).length ≤ fuel) :
    readLines newline capacity fuel (texts.flatMap (· ++ [newline])) =
      texts.map fun text => ⟨text ++ [newline], false⟩ := by
  induction texts generalizing fuel with
  | nil => cases fuel <;> rfl
  | cons text texts ih =>
      have htext := h text (List.mem_cons_self ..)
      have hinput : (text :: texts).flatMap (· ++ [newline]) =
          text ++ newline :: texts.flatMap (· ++ [newline]) := by
        simp
      have hread := readLine_append htext.1 htext.2 (texts.flatMap (· ++ [newline]))
      rw [hinput] at hfuel ⊢
      rw [List.length_append, List.length_cons] at hfuel
      obtain ⟨fuel, rfl⟩ := Nat.exists_eq_succ_of_ne_zero (n := fuel) (by omega)
      have hrest : readLines newline capacity fuel (texts.flatMap (· ++ [newline])) =
          texts.map fun text => ⟨text ++ [newline], false⟩ :=
        ih (fun text hmem => h text (List.mem_cons_of_mem _ hmem)) (by omega)
      cases hcons : text ++ newline :: texts.flatMap (· ++ [newline]) with
      | nil => simp at hcons
      | cons symbol rest =>
          rw [hcons] at hread
          rw [readLines, hread]
          simp [hrest]

/-- A line that was read to its end, by a newline or the end of the input. -/
def Line.Whole (newline : α) (line : Line α) : Prop := newline ∈ line.text ∨ line.ended = true

/-- The line without its newline. -/
def Line.body (newline : α) (line : Line α) : List α := line.text.takeWhile (· ≠ newline)

theorem takeWhile_line (h : newline ∉ text) (rest : List α) :
    (text ++ newline :: rest).takeWhile (· ≠ newline) = text ∧
      text.takeWhile (· ≠ newline) = text := by
  have htext : ∀ symbol ∈ text, decide (symbol ≠ newline) = true := by
    intro symbol hsymbol
    simp only [decide_eq_true_eq]
    rintro rfl
    exact h hsymbol
  constructor
  · rw [List.takeWhile_append_of_pos htext]
    simp
  · exact List.takeWhile_eq_self_iff.mpr htext

/-- A line that does not fit is cut off in the middle. -/
theorem readLine_long {capacity : ℕ} (h : newline ∉ text) (hlength : capacity ≤ text.length)
    {rest : List α} (hrest : rest = [] ∨ ∃ after, rest = newline :: after) :
    ¬(readLine newline capacity (text ++ rest)).1.Whole newline := by
  have hline : (text ++ rest).takeWhile (· ≠ newline) = text := by
    rcases hrest with rfl | ⟨after, rfl⟩
    · rw [List.append_nil]
      exact (takeWhile_line h []).2
    · exact (takeWhile_line h after).1
  rw [readLine, hline, if_pos hlength, List.take_append_of_le_length hlength]
  rintro (hmem | hended)
  · exact h (List.mem_of_mem_take hmem)
  · cases hended

/-- What one reading does when the line fits: the newline stays with the line, and only the
last line may go without. -/
theorem readLine_whole {capacity : ℕ} {line : Line α} {input rest : List α}
    (h : readLine newline capacity input = (line, rest)) (hwhole : line.Whole newline) :
    newline ∉ line.body newline ∧ (line.body newline).length < capacity ∧
      ((line.text = line.body newline ++ [newline] ∧
          input = line.body newline ++ newline :: rest) ∨
        (line.text = line.body newline ∧ line.ended = true ∧ input = line.body newline ∧
          rest = [])) := by
  by_cases hmem : newline ∈ input
  · obtain ⟨before, after, rfl, hbefore⟩ := List.eq_append_cons_of_mem hmem
    by_cases hfits : before.length < capacity
    · rw [readLine_append hbefore hfits] at h
      cases h
      have hbody : Line.body newline ⟨before ++ [newline], false⟩ = before :=
        (takeWhile_line hbefore []).1
      rw [hbody]
      exact ⟨hbefore, hfits, .inl ⟨rfl, rfl⟩⟩
    · have hlong := readLine_long hbefore (not_lt.mp hfits) (.inr ⟨after, rfl⟩)
      rw [h] at hlong
      exact absurd hwhole hlong
  · by_cases hfits : input.length < capacity
    · have hline : input.takeWhile (· ≠ newline) = input := (takeWhile_line hmem []).2
      rw [readLine, hline, if_neg (by omega), List.drop_length] at h
      cases h
      have hbody : Line.body newline ⟨input, true⟩ = input := hline
      rw [hbody]
      exact ⟨hmem, hfits, .inr ⟨rfl, rfl, rfl, rfl⟩⟩
    · have hlong := readLine_long hmem (not_lt.mp hfits) (.inl rfl)
      rw [List.append_nil, h] at hlong
      exact absurd hwhole hlong

/-- A text all of whose lines fit is cut at its newlines. -/
theorem readLines_splitOn {capacity fuel : ℕ} {input : List α} (hfuel : input.length ≤ fuel)
    (hwhole : ∀ line ∈ readLines newline capacity fuel input, line.Whole newline) :
    ∃ rest, (rest = [] ∨ rest = [[]]) ∧ input.splitOn newline =
      (readLines newline capacity fuel input).map (Line.body newline) ++ rest := by
  induction fuel generalizing input with
  | zero =>
      obtain rfl := List.eq_nil_of_length_eq_zero (Nat.le_zero.mp hfuel)
      exact ⟨[[]], .inr rfl, by simp [readLines]⟩
  | succ fuel ih =>
      cases input with
      | nil => exact ⟨[[]], .inr rfl, by simp [readLines]⟩
      | cons symbol input =>
          cases hread : readLine newline capacity (symbol :: input) with
          | mk line left =>
              have hlines : readLines newline capacity (fuel + 1) (symbol :: input) =
                  line :: readLines newline capacity fuel left := by
                rw [readLines, hread]
              rw [hlines] at hwhole ⊢
              obtain ⟨hbody, -, hcases⟩ :=
                readLine_whole hread (hwhole line (List.mem_cons_self ..))
              rcases hcases with ⟨-, hinput⟩ | ⟨-, -, hinput, rfl⟩
              · have hleft : left.length ≤ fuel := by
                  have hlength := congrArg List.length hinput
                  rw [List.length_append, List.length_cons, List.length_cons] at hlength
                  rw [List.length_cons] at hfuel
                  omega
                obtain ⟨rest, hrest, hsplit⟩ :=
                  ih hleft fun line hmem => hwhole line (List.mem_cons_of_mem _ hmem)
                refine ⟨rest, hrest, ?_⟩
                rw [hinput, List.splitOn_append_cons_self_of_not_mem hbody, hsplit]
                rfl
              · refine ⟨[], .inl rfl, ?_⟩
                have hnone : readLines newline capacity fuel [] = ([] : List (Line α)) := by
                  cases fuel <;> rfl
                rw [hinput, List.splitOn_eq_singleton hbody, hnone]
                rfl

/-- Nothing of the input is lost between a line and the rest. -/
theorem readLine_split (newline : α) (capacity : ℕ) (input : List α) :
    (readLine newline capacity input).1.text ++ (readLine newline capacity input).2 = input := by
  have hsplit := List.takeWhile_append_dropWhile (p := (· ≠ newline)) (l := input)
  have hdrop := congrArg (List.drop (input.takeWhile (· ≠ newline)).length) hsplit
  rw [List.drop_left] at hdrop
  simp only [readLine]
  split
  · exact List.take_append_drop ..
  rw [← hdrop]
  split
  · rename_i hnil
    rw [hnil] at hsplit
    exact hsplit
  · rename_i symbol rest hcons
    rw [hcons] at hsplit
    simpa using hsplit

theorem readLines_subset {capacity fuel : ℕ} {input : List α} :
    ∀ line ∈ readLines newline capacity fuel input, line.text ⊆ input := by
  induction fuel generalizing input with
  | zero => simp [readLines]
  | succ fuel ih =>
      cases input with
      | nil => simp [readLines]
      | cons symbol input =>
          have hsplit := readLine_split newline capacity (symbol :: input)
          intro line hmem
          rcases List.mem_cons.mp hmem with rfl | hmem
          · exact fun _ hin => hsplit ▸ List.mem_append_left _ hin
          · exact fun _ hin => hsplit ▸ List.mem_append_right _ (ih line hmem hin)

/-- Every line that fits is shorter than the buffer. -/
theorem readLines_short {capacity fuel : ℕ} {input : List α}
    (hwhole : ∀ line ∈ readLines newline capacity fuel input, line.Whole newline) :
    ∀ line ∈ readLines newline capacity fuel input, (line.body newline).length < capacity ∧
      (line.text = line.body newline ++ [newline] ∨ line.text = line.body newline) := by
  induction fuel generalizing input with
  | zero => simp [readLines]
  | succ fuel ih =>
      cases input with
      | nil => simp [readLines]
      | cons symbol input =>
          rw [readLines, List.forall_mem_cons] at hwhole ⊢
          obtain ⟨-, hshort, hcases⟩ := readLine_whole rfl hwhole.1
          exact ⟨⟨hshort, hcases.imp (·.1) (·.1)⟩, ih hwhole.2⟩

theorem lines_flatMap {capacity : ℕ} {texts : List (List α)}
    (h : ∀ text ∈ texts, newline ∉ text ∧ text.length < capacity) :
    lines newline capacity (texts.flatMap (· ++ [newline])) =
      texts.map fun text => ⟨text ++ [newline], false⟩ :=
  readLines_flatMap h le_rfl

end LocalSend.Text
