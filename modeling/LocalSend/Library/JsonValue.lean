import LocalSend.Library.Json

/-! # JSON values

Values, how they are printed without blanks, and a reader that finds the value a text denotes.
In a string only `"` and `\` are escaped, and no byte is below `0x20`. Numbers are whole and
stand as their numerals.
-/

namespace LocalSend.Json

inductive Value where
  | null
  | bool (value : Bool)
  | number (digits : List UInt8)
  | string (text : List UInt8)
  | array (items : List Value)
  | object (members : List (List UInt8 × Value))

/-- A member of an object. -/
def Value.field (key : List UInt8) : Value → Option Value
  | .object members => members.lookup key
  | _ => none

/-! ## Printing -/

def escape (text : List UInt8) : List UInt8 :=
  text.flatMap fun byte => if byte = 34 ∨ byte = 92 then [92, byte] else [byte]

/-- A string in front of a text. -/
def printString (text tail : List UInt8) : List UInt8 := 34 :: (escape text ++ 34 :: tail)

mutual

/-- A value in front of a text. -/
def Value.print : Value → List UInt8 → List UInt8
  | .null, tail => 110 :: 117 :: 108 :: 108 :: tail
  | .bool true, tail => 116 :: 114 :: 117 :: 101 :: tail
  | .bool false, tail => 102 :: 97 :: 108 :: 115 :: 101 :: tail
  | .number digits, tail => digits ++ tail
  | .string text, tail => printString text tail
  | .array items, tail => 91 :: printItems items tail
  | .object members, tail => 123 :: printMembers members tail

def printItems : List Value → List UInt8 → List UInt8
  | [], tail => 93 :: tail
  | item :: items, tail => item.print (printMoreItems items tail)

def printMoreItems : List Value → List UInt8 → List UInt8
  | [], tail => 93 :: tail
  | item :: items, tail => 44 :: item.print (printMoreItems items tail)

def printMembers : List (List UInt8 × Value) → List UInt8 → List UInt8
  | [], tail => 125 :: tail
  | (key, value) :: members, tail =>
      printString key (58 :: value.print (printMoreMembers members tail))

def printMoreMembers : List (List UInt8 × Value) → List UInt8 → List UInt8
  | [], tail => 125 :: tail
  | (key, value) :: members, tail =>
      44 :: printString key (58 :: value.print (printMoreMembers members tail))

end

/-! ## Reading -/

def isDigitByte (byte : UInt8) : Bool := 48 ≤ byte ∧ byte ≤ 57

/-- Behind the opening quote, a string and what follows its closing quote. -/
def readString : List UInt8 → Option (List UInt8 × List UInt8)
  | [] => none
  | 34 :: rest => some ([], rest)
  | 92 :: escaped :: rest =>
      if escaped = 34 ∨ escaped = 92 then
        (readString rest).map fun (text, rest) => (escaped :: text, rest)
      else none
  | byte :: rest =>
      if byte = 92 ∨ byte < 0x20 then none
      else (readString rest).map fun (text, rest) => (byte :: text, rest)

/-- No digits, or a zero in front of others, is no number. -/
def readNumber (text : List UInt8) : Option (Value × List UInt8) :=
  let digits := text.takeWhile isDigitByte
  if digits = [] ∨ 1 < digits.length ∧ digits.head? = some 48 then none
  else some (.number digits, text.dropWhile isDigitByte)

def readWord (word : List UInt8) (value : Value) (text : List UInt8) :
    Option (Value × List UInt8) :=
  if text.take word.length = word then some (value, text.drop word.length) else none

variable {α : Type*}

/-- Behind an item, the others up to the closing bracket. -/
def readMore (closing : UInt8) (item : List UInt8 → Option (α × List UInt8)) :
    ℕ → List UInt8 → Option (List α × List UInt8)
  | 0, _ => none
  | _, [] => none
  | fuel + 1, byte :: rest =>
      if byte = closing then some ([], rest)
      else if byte = 44 then
        (item rest).bind fun (first, rest) =>
          (readMore closing item fuel rest).map fun (items, rest) => (first :: items, rest)
      else none

/-- Behind the opening bracket. -/
def readList (closing : UInt8) (item : List UInt8 → Option (α × List UInt8)) (fuel : ℕ)
    (text : List UInt8) : Option (List α × List UInt8) :=
  if text.head? = some closing then some ([], text.tail)
  else (item text).bind fun (first, rest) =>
    (readMore closing item fuel rest).map fun (items, rest) => (first :: items, rest)

def readMember (value : List UInt8 → Option (α × List UInt8)) (text : List UInt8) :
    Option ((List UInt8 × α) × List UInt8) :=
  if text.head? = some 34 then
    (readString text.tail).bind fun (key, rest) =>
      if rest.head? = some 58 then
        (value rest.tail).map fun (member, rest) => ((key, member), rest)
      else none
  else none

/-- A value and what follows it. -/
def read : ℕ → List UInt8 → Option (Value × List UInt8)
  | 0, _ => none
  | _, [] => none
  | fuel + 1, byte :: rest =>
      if byte = 34 then (readString rest).map fun (text, rest) => (.string text, rest)
      else if byte = 91 then
        (readList 93 (read fuel) fuel rest).map fun (items, rest) => (.array items, rest)
      else if byte = 123 then
        (readList 125 (readMember (read fuel)) fuel rest).map fun (members, rest) =>
          (.object members, rest)
      else if byte = 110 then readWord [117, 108, 108] .null rest
      else if byte = 116 then readWord [114, 117, 101] (.bool true) rest
      else if byte = 102 then readWord [97, 108, 115, 101] (.bool false) rest
      else readNumber (byte :: rest)

/-- The value of a text, which may end in blanks. -/
def decode (text : List UInt8) : Option Value :=
  match read text.length text with
  | some (value, rest) => if rest.all isBlank then some value else none
  | none => none

/-! ## What can be printed -/

/-- Digits, and no zero in front of others. -/
structure IsNumeral (digits : List UInt8) : Prop where
  ne_nil : digits ≠ []
  isDigit : ∀ byte ∈ digits, isDigitByte byte = true
  leading : 1 < digits.length → digits.head? ≠ some 48

def IsText (text : List UInt8) : Prop := ∀ byte ∈ text, 0x20 ≤ byte

/-- Texts without control bytes, and numbers that are numerals. -/
inductive Value.Proper : Value → Prop
  | null : Proper .null
  | bool {value : Bool} : Proper (.bool value)
  | number {digits : List UInt8} (h : IsNumeral digits) : Proper (.number digits)
  | string {text : List UInt8} (h : IsText text) : Proper (.string text)
  | array {items : List Value} (h : ∀ item ∈ items, Proper item) : Proper (.array items)
  | object {members : List (List UInt8 × Value)} (hkeys : ∀ member ∈ members, IsText member.1)
      (h : ∀ member ∈ members, Proper member.2) : Proper (.object members)

mutual

/-- The fuel a value is read with. -/
def Value.size : Value → ℕ
  | .array items => sizeItems items + 1
  | .object members => sizeMembers members + 1
  | _ => 1

def sizeItems : List Value → ℕ
  | [] => 1
  | item :: items => item.size + sizeItems items

def sizeMembers : List (List UInt8 × Value) → ℕ
  | [] => 1
  | (_, value) :: members => value.size + sizeMembers members

end

variable {text tail digits : List UInt8} {value : Value} {items : List Value}
  {members : List (List UInt8 × Value)} {fuel : ℕ}

/-! ## Reading what was printed -/

theorem escape_cons (byte : UInt8) (text : List UInt8) : escape (byte :: text) =
    (if byte = 34 ∨ byte = 92 then [92, byte] else [byte]) ++ escape text := rfl

theorem readString_escape (h : IsText text) (tail : List UInt8) :
    readString (escape text ++ 34 :: tail) = some (text, tail) := by
  induction text with
  | nil => simp [escape, readString]
  | cons byte text ih =>
      have hrest := ih fun other hmem => h other (List.mem_cons_of_mem _ hmem)
      have hbyte : ¬byte < 0x20 := UInt8.not_lt.mpr (h byte (List.mem_cons_self ..))
      rw [escape_cons, List.append_assoc]
      by_cases hmark : byte = 34 ∨ byte = 92
      · rw [if_pos hmark, List.cons_append, List.cons_append, List.nil_append]
        simp only [readString, if_pos hmark, hrest]
        rfl
      · obtain ⟨hquote, hslash⟩ := not_or.mp hmark
        rw [if_neg hmark, List.cons_append, List.nil_append]
        simp [readString, hslash, hbyte, hrest]

/-- Nothing that would go on with a number. -/
def NoDigit (tail : List UInt8) : Prop := ∀ byte ∈ tail.head?, isDigitByte byte = false

theorem readNumber_digits (h : IsNumeral digits) (htail : NoDigit tail) :
    readNumber (digits ++ tail) = some (.number digits, tail) := by
  have htake : (digits ++ tail).takeWhile isDigitByte = digits := by
    rw [List.takeWhile_append_of_pos h.isDigit]
    cases tail with
    | nil => simp
    | cons byte tail => simp [htail byte rfl]
  have hdrop : (digits ++ tail).dropWhile isDigitByte = tail := by
    rw [List.dropWhile_append_of_pos h.isDigit]
    cases tail with
    | nil => rfl
    | cons byte tail => simp [htail byte rfl]
  have hproper : ¬(digits = [] ∨ 1 < digits.length ∧ digits.head? = some 48) :=
    not_or.mpr ⟨h.ne_nil, fun hleading => h.leading hleading.1 hleading.2⟩
  simp only [readNumber, htake, hdrop, if_neg hproper]

variable {item : List UInt8 → Option (α × List UInt8)} {print : α → List UInt8 → List UInt8}
  {xs : List α} {closing : UInt8}

/-- Further items, as they are printed. -/
def printMore (closing : UInt8) (print : α → List UInt8 → List UInt8) :
    List α → List UInt8 → List UInt8
  | [], tail => closing :: tail
  | x :: xs, tail => 44 :: print x (printMore closing print xs tail)

/-- A list, as it is printed behind its opening bracket. -/
def printList (closing : UInt8) (print : α → List UInt8 → List UInt8) :
    List α → List UInt8 → List UInt8
  | [], tail => closing :: tail
  | x :: xs, tail => print x (printMore closing print xs tail)

theorem noDigit_printMore (hclosing : isDigitByte closing = false) (xs : List α)
    (tail : List UInt8) : NoDigit (printMore closing print xs tail) := by
  intro byte hbyte
  cases xs with
  | nil =>
      obtain rfl : closing = byte := by simpa [printMore] using hbyte
      exact hclosing
  | cons x xs =>
      obtain rfl : 44 = byte := by simpa [printMore] using hbyte
      decide

theorem readMore_printMore (hclosing : isDigitByte closing = false) (hcomma : closing ≠ 44)
    (hitem : ∀ x ∈ xs, ∀ tail, NoDigit tail → item (print x tail) = some (x, tail))
    (hfuel : xs.length < fuel) (tail : List UInt8) :
    readMore closing item fuel (printMore closing print xs tail) = some (xs, tail) := by
  induction xs generalizing fuel with
  | nil =>
      obtain ⟨fuel, rfl⟩ := Nat.exists_eq_succ_of_ne_zero (Nat.ne_of_gt hfuel)
      rw [printMore, readMore, if_pos rfl]
  | cons x xs ih =>
      obtain ⟨fuel, rfl⟩ := Nat.exists_eq_succ_of_ne_zero (Nat.ne_zero_of_lt hfuel)
      have hrest := ih (fun other hmem => hitem other (List.mem_cons_of_mem _ hmem))
        (Nat.lt_of_succ_lt_succ hfuel)
      rw [printMore, readMore, if_neg hcomma.symm, if_pos rfl,
        hitem x (List.mem_cons_self ..) _ (noDigit_printMore hclosing xs tail), Option.bind_some]
      dsimp only
      rw [hrest]
      rfl

theorem readList_printList (hclosing : isDigitByte closing = false) (hcomma : closing ≠ 44)
    (hitem : ∀ x ∈ xs, ∀ tail, NoDigit tail → item (print x tail) = some (x, tail))
    (hstart : ∀ x ∈ xs, ∀ tail, (print x tail).head? ≠ some closing)
    (hfuel : xs.length ≤ fuel) (tail : List UInt8) :
    readList closing item fuel (printList closing print xs tail) = some (xs, tail) := by
  cases xs with
  | nil => simp [printList, readList]
  | cons x xs =>
      have hmore := readMore_printMore hclosing hcomma
        (fun other hmem => hitem other (List.mem_cons_of_mem _ hmem)) hfuel tail
      rw [printList, readList, if_neg (hstart x (List.mem_cons_self ..) _),
        hitem x (List.mem_cons_self ..) _ (noDigit_printMore hclosing xs tail), Option.bind_some]
      dsimp only
      rw [hmore]
      rfl

theorem printItems_eq (items : List Value) (tail : List UInt8) :
    printItems items tail = printList 93 Value.print items tail := by
  have hmore : ∀ items tail, printMoreItems items tail = printMore 93 Value.print items tail := by
    intro items
    induction items with
    | nil => exact fun _ => rfl
    | cons item items ih =>
        intro tail
        rw [printMoreItems, printMore, ih]
  cases items with
  | nil => rfl
  | cons item items => rw [printItems, printList, hmore]

/-- A member in front of a text. -/
def printMember (member : List UInt8 × Value) (tail : List UInt8) : List UInt8 :=
  printString member.1 (58 :: member.2.print tail)

theorem printMembers_eq (members : List (List UInt8 × Value)) (tail : List UInt8) :
    printMembers members tail = printList 125 printMember members tail := by
  have hmore : ∀ members tail,
      printMoreMembers members tail = printMore 125 printMember members tail := by
    intro members
    induction members with
    | nil => exact fun _ => rfl
    | cons member members ih =>
        intro tail
        rw [printMoreMembers, printMore, ih]
        rfl
  cases members with
  | nil => rfl
  | cons member members =>
      rw [printMembers, printList, hmore]
      rfl

instance (text : List UInt8) : Decidable (Plain text) := List.decidableBAll _ text

instance (text : List UInt8) : Decidable (IsText text) := List.decidableBAll _ text

theorem Plain.isText (h : Plain text) : IsText text := fun byte hmem => (h byte hmem).1

/-- A plain text is printed as it is. -/
theorem Plain.escape_eq (h : Plain text) : escape text = text := by
  induction text with
  | nil => rfl
  | cons byte text ih =>
      obtain ⟨-, hquote, hslash⟩ := h byte (List.mem_cons_self ..)
      rw [escape_cons, if_neg (not_or.mpr ⟨hquote, hslash⟩),
        ih fun other hmem => h other (List.mem_cons_of_mem _ hmem)]
      rfl

theorem length_escape_le (text : List UInt8) : (escape text).length ≤ 2 * text.length := by
  induction text with
  | nil => simp [escape]
  | cons byte text ih =>
      rw [escape_cons, List.length_append, List.length_cons]
      split
      · simp only [List.length_cons, List.length_nil]
        omega
      · simp only [List.length_cons, List.length_nil]
        omega

theorem Value.Proper.nil : (Value.object []).Proper :=
  .object (by simp) (by simp)

theorem Value.Proper.cons {key : List UInt8} (hkey : IsText key) (hvalue : value.Proper)
    (h : (Value.object members).Proper) : (Value.object ((key, value) :: members)).Proper := by
  cases h with
  | object hkeys h =>
      exact .object (List.forall_mem_cons.mpr ⟨hkey, hkeys⟩) (List.forall_mem_cons.mpr ⟨hvalue, h⟩)

/-! ## Fuel -/

theorem size_pos (value : Value) : 0 < value.size := by
  cases value <;> simp [Value.size]

theorem sizeItems_spec (items : List Value) :
    items.length < sizeItems items ∧ ∀ item ∈ items, item.size < sizeItems items := by
  induction items with
  | nil => simp [sizeItems]
  | cons item items ih =>
      have hpos := size_pos item
      rw [sizeItems, List.length_cons]
      refine ⟨by omega, fun other hmem => ?_⟩
      rcases List.mem_cons.mp hmem with rfl | hmem
      · omega
      · have hother := ih.2 other hmem
        omega

theorem sizeMembers_spec (members : List (List UInt8 × Value)) :
    members.length < sizeMembers members ∧
      ∀ member ∈ members, member.2.size < sizeMembers members := by
  induction members with
  | nil => simp [sizeMembers]
  | cons member members ih =>
      have hpos := size_pos member.2
      rw [sizeMembers, List.length_cons]
      refine ⟨by omega, fun other hmem => ?_⟩
      rcases List.mem_cons.mp hmem with rfl | hmem
      · omega
      · have hother := ih.2 other hmem
        omega

/-- No value starts like a closing bracket. -/
theorem print_head (h : value.Proper) (tail : List UInt8) :
    (value.print tail).head? ≠ some 93 := by
  cases h with
  | @number digits h =>
      obtain ⟨byte, rest, rfl⟩ := List.exists_cons_of_ne_nil h.ne_nil
      have hbyte := h.isDigit byte (List.mem_cons_self ..)
      rw [Value.print, List.cons_append, List.head?_cons]
      intro heq
      rw [Option.some.inj heq] at hbyte
      exact absurd hbyte (by decide)
  | @bool value => cases value <;> simp [Value.print]
  | _ => simp [Value.print, printString]

theorem readMember_printMember {read : List UInt8 → Option (Value × List UInt8)}
    {member : List UInt8 × Value} (hkey : IsText member.1)
    (h : read (member.2.print tail) = some (member.2, tail)) :
    readMember read (printMember member tail) = some (member, tail) := by
  rw [readMember, printMember, printString, List.head?_cons, if_pos rfl, List.tail_cons,
    readString_escape hkey, Option.bind_some]
  dsimp only
  rw [List.head?_cons, if_pos rfl, List.tail_cons, h]
  rfl

/-- A value is read back, whatever stops it. -/
theorem read_print (h : value.Proper) (hfuel : value.size ≤ fuel) (htail : NoDigit tail) :
    read fuel (value.print tail) = some (value, tail) := by
  induction fuel generalizing value tail with
  | zero => exact absurd hfuel (Nat.not_le_of_lt (size_pos value))
  | succ fuel ih =>
      cases h with
      | null => rfl
      | @bool value => cases value <;> rfl
      | @number digits h =>
          obtain ⟨byte, rest, rfl⟩ := List.exists_cons_of_ne_nil h.ne_nil
          have hbyte := h.isDigit byte (List.mem_cons_self ..)
          have hnot : ∀ other, isDigitByte other = false → byte ≠ other := by
            rintro other hother rfl
            rw [hother] at hbyte
            cases hbyte
          rw [Value.print, List.cons_append, read, if_neg (hnot 34 (by decide)),
            if_neg (hnot 91 (by decide)), if_neg (hnot 123 (by decide)),
            if_neg (hnot 110 (by decide)), if_neg (hnot 116 (by decide)),
            if_neg (hnot 102 (by decide)), ← List.cons_append]
          exact readNumber_digits h htail
      | string h =>
          rw [Value.print, printString, read, if_pos rfl, readString_escape h]
          rfl
      | @array items h =>
          obtain ⟨hlength, hsizes⟩ := sizeItems_spec items
          rw [Value.size] at hfuel
          have hread : readList 93 (read fuel) fuel (printItems items tail) =
              some (items, tail) := by
            rw [printItems_eq]
            refine readList_printList (by decide) (by decide) ?_ ?_ (by omega) tail
            · intro item hmem rest hrest
              have hsize := hsizes item hmem
              exact ih (h item hmem) (by omega) hrest
            · exact fun item hmem => print_head (h item hmem)
          rw [Value.print, read, if_neg (by decide), if_pos rfl, hread]
          rfl
      | @object members hkeys h =>
          obtain ⟨hlength, hsizes⟩ := sizeMembers_spec members
          rw [Value.size] at hfuel
          have hread : readList 125 (readMember (read fuel)) fuel (printMembers members tail) =
              some (members, tail) := by
            rw [printMembers_eq]
            refine readList_printList (by decide) (by decide) ?_ ?_ (by omega) tail
            · intro member hmem rest hrest
              refine readMember_printMember (hkeys member hmem) (ih (h member hmem) ?_ hrest)
              have hsize := hsizes member hmem
              omega
            · intro member _ rest
              simp [printMember, printString]
          rw [Value.print, read, if_neg (by decide), if_neg (by decide), if_pos rfl, hread]
          rfl

/-- The sizes of a list's parts, and the byte behind them. -/
def sizeList (size : α → ℕ) : List α → ℕ
  | [] => 1
  | x :: xs => size x + sizeList size xs

theorem length_printMore {size : α → ℕ} (closing : UInt8) (tail : List UInt8)
    (h : ∀ x ∈ xs, ∀ tail, size x + tail.length ≤ (print x tail).length) :
    sizeList size xs + tail.length ≤ (printMore closing print xs tail).length := by
  induction xs with
  | nil => simp [printMore, sizeList, Nat.add_comm]
  | cons x xs ih =>
      have hfirst := h x (List.mem_cons_self ..) (printMore closing print xs tail)
      have hrest := ih fun other hmem => h other (List.mem_cons_of_mem _ hmem)
      rw [printMore, sizeList, List.length_cons]
      omega

theorem length_printList {size : α → ℕ} (closing : UInt8) (tail : List UInt8)
    (h : ∀ x ∈ xs, ∀ tail, size x + tail.length ≤ (print x tail).length) :
    sizeList size xs + tail.length ≤ (printList closing print xs tail).length := by
  cases xs with
  | nil => simp [printList, sizeList, Nat.add_comm]
  | cons x xs =>
      have hfirst := h x (List.mem_cons_self ..) (printMore closing print xs tail)
      have hrest := length_printMore closing tail fun other hmem =>
        h other (List.mem_cons_of_mem x hmem)
      rw [printList, sizeList]
      omega

theorem sizeItems_eq (items : List Value) : sizeItems items = sizeList Value.size items := by
  induction items with
  | nil => rfl
  | cons item items ih => rw [sizeItems, ih, sizeList]

theorem sizeMembers_eq (members : List (List UInt8 × Value)) :
    sizeMembers members = sizeList (fun member => member.2.size) members := by
  induction members with
  | nil => rfl
  | cons member members ih =>
      rw [sizeMembers, ih, sizeList]

/-- Every part of a value is at least a byte of its text. -/
theorem size_add_length_le (h : value.Proper) (tail : List UInt8) :
    value.size + tail.length ≤ (value.print tail).length := by
  induction h generalizing tail with
  | null =>
      simp only [Value.size, Value.print, List.length_cons]
      omega
  | @bool value =>
      cases value with
      | false =>
          simp only [Value.size, Value.print, List.length_cons]
          omega
      | true =>
          simp only [Value.size, Value.print, List.length_cons]
          omega
  | @number digits h =>
      have hpos := List.length_pos_iff.mpr h.ne_nil
      simp only [Value.size, Value.print, List.length_append]
      omega
  | string h =>
      simp only [Value.size, Value.print, printString, List.length_cons, List.length_append]
      omega
  | @array items h ih =>
      have hitems := length_printList 93 tail ih
      rw [Value.size, sizeItems_eq, Value.print, printItems_eq, List.length_cons]
      omega
  | @object members hkeys h ih =>
      have hmembers : ∀ member ∈ members, ∀ tail, member.2.size + tail.length ≤
          (printMember member tail).length := by
        intro member hmem rest
        have hvalue := ih member hmem rest
        rw [printMember, printString, List.length_cons, List.length_append, List.length_cons,
          List.length_cons]
        omega
      have hall := length_printList 125 tail hmembers
      rw [Value.size, sizeMembers_eq, Value.print, printMembers_eq, List.length_cons]
      omega

/-- A printed value is what its text denotes. -/
theorem decode_print (h : value.Proper) {blanks : List UInt8}
    (hblanks : ∀ byte ∈ blanks, isBlank byte = true) :
    decode (value.print blanks) = some value := by
  have hnoDigit : NoDigit blanks := by
    intro byte hbyte
    have hblank := hblanks byte (List.mem_of_mem_head? hbyte)
    simp only [isBlank, decide_eq_true_eq] at hblank
    rcases hblank with rfl | rfl | rfl | rfl <;> decide
  have hsize := size_add_length_le h blanks
  rw [decode, read_print h (by omega) hnoDigit]
  exact if_pos (List.all_eq_true.mpr hblanks)

end LocalSend.Json
