import ApiSurface.Proofs.NumeralText
/-!
# What the text of a JSON value is read as

Reading the indented text of a value gives a value for every value (`parse_pretty`), and `reread`
says which one.  Texts, truth values, null and integers of sixty-four bits come back as they are.  A
double comes back as what its numeral is read as, and a value whose brackets are nested too deep
comes back unreadable.

Each reader is followed on a text with anything behind it.  The fuel is no concern: a value needs no
more of it than it has characters.
-/

namespace ApiSurface.Json

/-! ## 1. Blanks -/

theorem skipSpace_of_head {c : Char} {t : List Char} (h : isSpace c = false) :
    skipSpace (c :: t) = c :: t := by
  rw [skipSpace, List.dropWhile_cons_of_neg (by rw [h]; simp)]

theorem skipSpace_space (t : List Char) : skipSpace (' ' :: t) = skipSpace t := rfl

theorem newline_toList (level : Nat) :
    (newline level).toList = '\n' :: List.replicate (2 * level) ' ' := by
  simp [newline]

theorem skipSpace_newline (level : Nat) (t : List Char) :
    skipSpace ((newline level).toList ++ t) = skipSpace t := by
  have hspaces : ∀ n, skipSpace (List.replicate n ' ' ++ t) = skipSpace t := by
    intro n
    induction n with
    | zero => rfl
    | succ n ih => rw [List.replicate_succ, List.cons_append, skipSpace_space, ih]
  rw [newline_toList]
  exact hspaces (2 * level)

/-! ## 2. Texts -/

theorem hexDigit?_hexLetter (n : Nat) : hexDigit? (hexLetter n) = some (n % 16) := by
  have hall : ∀ d : Fin 16, hexDigit? (Nat.digitChar d) = some d.val := by decide
  exact hall ⟨n % 16, Nat.mod_lt _ (by omega)⟩

/-- A control that has no letter of its own is read back from its number. -/
theorem readEscape_control {c : Char} (h : c.toNat < 0x20) (t : List Char) :
    readEscape ('u' :: '0' :: '0' :: hexLetter (c.toNat / 16) :: hexLetter c.toNat :: t)
      = .ok (.char c, t) := by
  have hzero : hexDigit? '0' = some 0 := rfl
  have hnumber : ((0 * 16 + 0) * 16 + c.toNat / 16 % 16) * 16 + c.toNat % 16 = c.toNat := by omega
  have hhex : readHex ('0' :: '0' :: hexLetter (c.toNat / 16) :: hexLetter c.toNat :: t)
      = .ok (c.toNat, t) := by
    simp only [readHex, hzero, hexDigit?_hexLetter, hnumber]
  have hhigh : isHighSurrogate c.toNat = false := by
    simp only [isHighSurrogate, Bool.and_eq_false_iff, decide_eq_false_iff_not]
    omega
  have hlow : isLowSurrogate c.toNat = false := by
    simp only [isLowSurrogate, Bool.and_eq_false_iff, decide_eq_false_iff_not]
    omega
  simp only [readEscape, hhex, bind, Except.bind, hhigh, hlow, Bool.false_eq_true, if_false,
    Char.ofNat_toNat]
  rfl

/-- An escaped character is read back in one step. -/
theorem readText_escapedChar (c : Char) (fuel : Nat) (read : Option (List Char)) (t : List Char) :
    readText (fuel + 1) read ((escapedChar c).toList ++ t)
      = readText fuel (read.map (c :: ·)) t := by
  have hescape : ∀ e, readEscape e = .ok (.char c, t) →
      readText (fuel + 1) read ('\\' :: e) = readText fuel (read.map (c :: ·)) t := by
    intro e he
    rw [readText]
    simp [he]
  unfold escapedChar
  split
  · exact hescape ('"' :: t) rfl
  · exact hescape ('\\' :: t) rfl
  · exact hescape ('n' :: t) rfl
  · exact hescape ('r' :: t) rfl
  · exact hescape ('t' :: t) rfl
  · rename_i hquote hbackslash _ _ _
    split
    · rename_i h
      have hc : c = '\x08' := by rw [← Char.ofNat_toNat c, h]
      exact hescape ('b' :: t) (by rw [hc]; rfl)
    · split
      · rename_i h
        have hc : c = '\x0c' := by rw [← Char.ofNat_toNat c, h]
        exact hescape ('f' :: t) (by rw [hc]; rfl)
      · split
        · rename_i h
          have hchars :
              ("\\u00" ++ String.ofList [hexLetter (c.toNat / 16), hexLetter c.toNat]).toList
              = ['\\', 'u', '0', '0', hexLetter (c.toNat / 16), hexLetter c.toNat] := by simp
          rw [hchars]
          exact hescape _ (readEscape_control h t)
        · rename_i h
          have hchars : c.toString.toList = [c] := by simp
          have hquote' : (c == '"') = false := beq_eq_false_iff_ne.2 hquote
          have hbackslash' : (c == '\\') = false := beq_eq_false_iff_ne.2 hbackslash
          rw [hchars, List.singleton_append, readText, hquote', hbackslash', if_neg h]
          rfl

theorem readText_escaped (cs : List Char) {fuel : Nat} (hfuel : cs.length < fuel)
    (read : Option (List Char)) (rest : List Char) :
    readText fuel read ((cs.map escapedChar).flatMap String.toList ++ '"' :: rest)
      = .ok (read.map (cs.reverse ++ ·), rest) := by
  induction cs generalizing fuel read with
  | nil =>
    cases fuel with
    | zero => omega
    | succ fuel =>
      have hread : read.map (([] : List Char).reverse ++ ·) = read := by simp
      rw [hread]
      rfl
  | cons c cs ih =>
    cases fuel with
    | zero => omega
    | succ fuel =>
      rw [List.length_cons] at hfuel
      rw [List.map_cons, List.flatMap_cons, List.append_assoc, readText_escapedChar,
        ih (by omega), Option.map_map]
      simp [Function.comp_def]

theorem escaped_toList (s : String) :
    (escaped s).toList = '"' :: ((s.toList.map escapedChar).flatMap String.toList ++ ['"']) := by
  simp [escaped, String.toList_join]

theorem escapedChar_pos (c : Char) : 0 < (escapedChar c).toList.length := by
  unfold escapedChar
  split
  · decide
  · decide
  · decide
  · decide
  · decide
  · split
    · decide
    · split
      · decide
      · split <;> simp

theorem length_le_escapes (cs : List Char) :
    cs.length ≤ ((cs.map escapedChar).flatMap String.toList).length := by
  induction cs with
  | nil => exact Nat.le_refl _
  | cons c cs ih =>
    have hc := escapedChar_pos c
    rw [List.map_cons, List.flatMap_cons, List.length_append, List.length_cons]
    omega

/-- A text is read back, whatever follows it. -/
theorem readString_escaped (s : String) (rest : List Char) :
    readString ((s.toList.map escapedChar).flatMap String.toList ++ '"' :: rest)
      = .ok (some s, rest) := by
  have hfuel : s.toList.length
      < ((s.toList.map escapedChar).flatMap String.toList ++ '"' :: rest).length + 1 := by
    have := length_le_escapes s.toList
    rw [List.length_append]
    omega
  rw [readString, readText_escaped s.toList hfuel]
  simp [Except.map]

/-! ## 3. What comes back -/

/-- What the numeral of a double is read as; a double that is not finite has none and is written as
null. -/
def rereadFloat (x : Binary64) : Json :=
  if x.isFinite then
    match parse (Decimal.write floatLayout x) with
    | .ok v => v
    | .error _ => .null
  else .null

mutual
/-- What the text of a value is read as, inside `depth` arrays and objects. -/
def reread (depth : Nat) : Json → Json
  | .null => .null
  | .bool b => .bool b
  | .int n => (UnsignedNumeral.ofNat n.natAbs).value (n < 0)
  | .float x => rereadFloat x
  | .string s => .string s
  | .array items => atDepth (depth + 1) (.array (rereadItems (depth + 1) items))
  | .object members => atDepth (depth + 1) (.object (rereadMembers (depth + 1) members))
  | .unreadable => .null

def rereadItems (depth : Nat) : List Json → List Json
  | [] => []
  | v :: more => v.reread depth :: rereadItems depth more

def rereadMembers (depth : Nat) : List (String × Json) → List (String × Json)
  | [] => []
  | m :: more => rereadMember depth m :: rereadMembers depth more

def rereadMember (depth : Nat) : String × Json → String × Json
  | (key, v) => (key, v.reread depth)
end

/-! ## 4. Scalars -/

section Scalar

variable {fuel depth : Nat} {t u rest : List Char}

theorem readValue_of_digit {c : Char} (hc : Text.isAsciiDigit c = true)
    (h : skipSpace t = c :: u) : readValue (fuel + 1) depth t = readNumber false (c :: u) := by
  have hne : ∀ d, Text.isAsciiDigit d = false → c ≠ d := by
    rintro d hd rfl
    rw [hc] at hd
    cases hd
  rw [readValue, h]
  simp [hne 'n' rfl, hne 't' rfl, hne 'f' rfl, hne '"' rfl, hne '[' rfl, hne '\x7b' rfl,
    hne '-' rfl]

theorem readValue_of_minus (h : skipSpace t = '-' :: u) :
    readValue (fuel + 1) depth t = readNumber true u := by
  rw [readValue, h]
  rfl

/-- A signed numeral is read by its sign and its value. -/
theorem readValue_numeral (n : UnsignedNumeral) {negative : Bool}
    (h : skipSpace t = (if negative then ['-'] else []) ++ n.chars ++ rest)
    (hrest : UnsignedNumeral.EndsBefore rest) :
    readValue (fuel + 1) depth t = .ok (n.value negative, rest) := by
  cases negative with
  | true =>
    have h' : skipSpace t = '-' :: (n.chars ++ rest) := h
    rw [readValue_of_minus h', n.readNumber_numeral true hrest]
  | false =>
    have h' : skipSpace t = n.chars ++ rest := h
    rw [← n.readNumber_numeral false hrest]
    cases hwhole : n.whole with
    | nil => exact absurd hwhole n.whole_ne
    | cons c more =>
      have hc : Text.isAsciiDigit c = true := n.whole_digits c (by simp [hwhole])
      have hchars : n.chars ++ rest = c :: (more ++ UnsignedNumeral.fractionChars n.fraction
          ++ UnsignedNumeral.exponentChars n.exponent ++ rest) := by
        simp [UnsignedNumeral.chars, hwhole]
      rw [hchars] at h' ⊢
      exact readValue_of_digit hc h'

theorem readValue_string (s : String) (h : skipSpace t = (escaped s).toList ++ rest) :
    readValue (fuel + 1) depth t = .ok (.string s, rest) := by
  have hshape : skipSpace t = '"' :: ((s.toList.map escapedChar).flatMap String.toList
      ++ '"' :: rest) := by
    rw [h, escaped_toList]
    simp
  rw [readValue, hshape]
  simp only [readString_escaped]

/-- A signed numeral begins with a digit or its sign. -/
theorem numeral_head (n : UnsignedNumeral) (negative : Bool) :
    ∃ c more, (if negative then ['-'] else []) ++ n.chars = c :: more
      ∧ isSpace c = false ∧ c ≠ ']' := by
  cases negative with
  | true => exact ⟨'-', n.chars, rfl, rfl, by decide⟩
  | false =>
    cases hwhole : n.whole with
    | nil => exact absurd hwhole n.whole_ne
    | cons c more =>
      have hc : Text.isAsciiDigit c = true := n.whole_digits c (by simp [hwhole])
      have hne : ∀ d, Text.isAsciiDigit d = false → c ≠ d := by
        rintro d hd rfl
        rw [hc] at hd
        cases hd
      refine ⟨c, _, by simp [UnsignedNumeral.chars, hwhole]; rfl, ?_, hne ']' rfl⟩
      simp [isSpace, hne ' ' rfl, hne '\t' rfl, hne '\n' rfl, hne '\r' rfl]

/-- The numeral of a double, alone, is read as its value. -/
theorem parse_write {x : Binary64} {n : UnsignedNumeral}
    (h : (Decimal.write floatLayout x).toList = (if x.isNegative then ['-'] else []) ++ n.chars) :
    parse (Decimal.write floatLayout x) = .ok (n.value x.isNegative) := by
  obtain ⟨c, more, hhead, hspace, -⟩ := numeral_head n x.isNegative
  have hskip : skipSpace (Decimal.write floatLayout x).toList
      = (if x.isNegative then ['-'] else []) ++ n.chars ++ [] := by
    rw [h, hhead, skipSpace_of_head hspace, List.append_nil]
  have hread : ∀ fuel, readValue (fuel + 1) 0 (Decimal.write floatLayout x).toList
      = .ok (n.value x.isNegative, []) :=
    fun fuel => readValue_numeral n hskip (by intro c hc; cases hc)
  simp only [parse, hread]
  rfl

theorem rereadFloat_eq {x : Binary64} (hx : x.isFinite = true) {n : UnsignedNumeral}
    (h : (Decimal.write floatLayout x).toList = (if x.isNegative then ['-'] else []) ++ n.chars) :
    rereadFloat x = n.value x.isNegative := by
  simp only [rereadFloat, hx, if_true, parse_write h]

theorem readValue_float {x : Binary64} (hx : x.isFinite = true)
    (h : skipSpace t = (Decimal.write floatLayout x).toList ++ rest)
    (hrest : UnsignedNumeral.EndsBefore rest) :
    readValue (fuel + 1) depth t = .ok (rereadFloat x, rest) := by
  obtain ⟨n, -, hn⟩ := Decimal.write_numeral hx
  rw [rereadFloat_eq hx hn]
  exact readValue_numeral n (by rw [h, hn]) hrest

theorem readValue_null (h : skipSpace t = "null".toList ++ rest) :
    readValue (fuel + 1) depth t = .ok (.null, rest) := by
  rw [readValue, h]
  rfl

end Scalar

/-! ## 5. Values -/

theorem indented_true (level : Nat) : indented level (.bool true) = "true" := rfl
theorem indented_false (level : Nat) : indented level (.bool false) = "false" := rfl
theorem indented_int (level : Nat) (n : Int) : indented level (.int n) = writeInt n := rfl

theorem indented_float (level : Nat) (x : Binary64) :
    indented level (.float x) = if x.isFinite then Decimal.write floatLayout x else "null" := rfl

theorem indented_array_nil (level : Nat) : indented level (.array []) = "[]" := rfl
theorem indented_object_nil (level : Nat) : indented level (.object []) = "\x7b\x7d" := rfl

theorem indented_array_cons (level : Nat) (v : Json) (more : List Json) :
    (indented level (.array (v :: more))).toList
      = '[' :: ((indentedItems (level + 1) (v :: more)).toList
        ++ (newline level).toList ++ [']']) := by
  rw [indented]
  · simp
  · simp

theorem indented_object_cons (level : Nat) (m : String × Json) (more : Members) :
    (indented level (.object (m :: more))).toList
      = '\x7b' :: ((indentedMembers (level + 1) (m :: more)).toList ++ (newline level).toList
          ++ ['\x7d']) := by
  rw [indented]
  · simp
  · simp

/-- The text of a value begins neither with a blank nor with a closing bracket. -/
theorem indented_head (level : Nat) (v : Json) :
    ∃ c more, (v.indented level).toList = c :: more ∧ isSpace c = false ∧ c ≠ ']' := by
  have hnull : ∃ c more, "null".toList = c :: more ∧ isSpace c = false ∧ c ≠ ']' :=
    ⟨'n', "ull".toList, rfl, rfl, by decide⟩
  cases v with
  | null | unreadable => exact hnull
  | bool b =>
    cases b with
    | true => exact ⟨'t', "rue".toList, by rw [indented_true]; rfl, rfl, by decide⟩
    | false => exact ⟨'f', "alse".toList, by rw [indented_false]; rfl, rfl, by decide⟩
  | int n =>
    obtain ⟨c, more, h⟩ := numeral_head (.ofNat n.natAbs) (decide (n < 0))
    refine ⟨c, more, ?_, h.2⟩
    rw [← h.1, indented_int, UnsignedNumeral.writeInt_toList]
    simp
  | float x =>
    rw [indented_float]
    cases hx : x.isFinite with
    | false => exact hnull
    | true =>
      obtain ⟨n, -, hn⟩ := Decimal.write_numeral hx
      obtain ⟨c, more, h⟩ := numeral_head n x.isNegative
      exact ⟨c, more, hn.trans h.1, h.2⟩
  | string s => exact ⟨'"', _, escaped_toList s, rfl, by decide⟩
  | array items =>
    cases items with
    | nil => exact ⟨'[', [']'], by rw [indented_array_nil]; rfl, rfl, by decide⟩
    | cons v more => exact ⟨'[', _, indented_array_cons level v more, rfl, by decide⟩
  | object members =>
    cases members with
    | nil => exact ⟨'\x7b', ['\x7d'], by rw [indented_object_nil]; rfl, rfl, by decide⟩
    | cons m more => exact ⟨'\x7b', _, indented_object_cons level m more, rfl, by decide⟩

theorem skipSpace_indented (level : Nat) (v : Json) (rest : List Char) :
    skipSpace ((v.indented level).toList ++ rest) = (v.indented level).toList ++ rest := by
  obtain ⟨c, more, h, hspace, -⟩ := indented_head level v
  rw [h, List.cons_append, skipSpace_of_head hspace]

theorem indentedItems_single (level : Nat) (v : Json) :
    (indentedItems level [v]).toList = (newline level).toList ++ (v.indented level).toList := by
  rw [indentedItems, String.toList_append]

theorem indentedItems_cons (level : Nat) (v w : Json) (more : List Json) :
    (indentedItems level (v :: w :: more)).toList = (newline level).toList
      ++ (v.indented level).toList ++ ',' :: (indentedItems level (w :: more)).toList := by
  rw [indentedItems]
  · simp
  · simp

theorem indentedMembers_single (level : Nat) (key : String) (v : Json) :
    (indentedMembers level [(key, v)]).toList = (newline level).toList ++ (escaped key).toList
      ++ ':' :: ' ' :: (v.indented level).toList := by
  rw [indentedMembers, indentedMember]
  simp

theorem indentedMembers_cons (level : Nat) (key : String) (v : Json) (m : String × Json)
    (more : Members) :
    (indentedMembers level ((key, v) :: m :: more)).toList = (newline level).toList
      ++ (escaped key).toList ++ ':' :: ' ' :: (v.indented level).toList
      ++ ',' :: (indentedMembers level (m :: more)).toList := by
  rw [indentedMembers, indentedMember]
  · simp
  · simp

theorem endsBefore_comma (t : List Char) : UnsignedNumeral.EndsBefore (',' :: t) := by
  intro c hc
  cases hc
  decide

theorem endsBefore_newline (level : Nat) (t : List Char) :
    UnsignedNumeral.EndsBefore ((newline level).toList ++ t) := by
  rw [newline_toList]
  intro c hc
  cases hc
  decide

/-- The text of the items of an array begins, after blanks, with the first item. -/
theorem skipSpace_items (level : Nat) (v : Json) (more : List Json) (rest : List Char) :
    ∃ c t, skipSpace ((indentedItems level (v :: more)).toList ++ rest) = c :: t
      ∧ isSpace c = false ∧ c ≠ ']' := by
  obtain ⟨c, t, h, hc⟩ := indented_head level v
  cases more with
  | nil =>
    refine ⟨c, t ++ rest, ?_, hc⟩
    rw [indentedItems_single, List.append_assoc, skipSpace_newline, skipSpace_indented, h,
      List.cons_append]
  | cons w more =>
    refine ⟨c, t ++ ',' :: (indentedItems level (w :: more)).toList ++ rest, ?_, hc⟩
    rw [indentedItems_cons, List.append_assoc, List.append_assoc, skipSpace_newline,
      skipSpace_indented, h]
    simp

theorem escaped_head (s : String) : ∃ t, (escaped s).toList = '"' :: t := ⟨_, escaped_toList s⟩

theorem skipSpace_escaped (s : String) (rest : List Char) :
    skipSpace ((escaped s).toList ++ rest) = (escaped s).toList ++ rest := by
  rw [escaped_toList]
  exact skipSpace_of_head rfl

/-- The text of the members of an object begins, after blanks, with the quote of a key. -/
theorem skipSpace_members (level : Nat) (m : String × Json) (more : Members) (rest : List Char) :
    ∃ t, skipSpace ((indentedMembers level (m :: more)).toList ++ rest) = '"' :: t := by
  obtain ⟨key, v⟩ := m
  obtain ⟨t, hkey⟩ := escaped_head key
  cases more with
  | nil =>
    rw [indentedMembers_single, List.append_assoc, List.append_assoc, skipSpace_newline,
      skipSpace_escaped, hkey]
    exact ⟨_, rfl⟩
  | cons m' more =>
    rw [indentedMembers_cons, List.append_assoc, List.append_assoc, List.append_assoc,
      skipSpace_newline, skipSpace_escaped, hkey]
    exact ⟨_, rfl⟩

/-! ## 6. Single steps of the reader -/

section Step

variable {fuel depth : Nat} {t u w : List Char} {v : Json}

theorem readValue_array {c : Char} (ht : skipSpace t = '[' :: u) (hu : skipSpace u = c :: w)
    (hc : c ≠ ']') :
    readValue (fuel + 1) depth t = readItems fuel (depth + 1) [] (c :: w) := by
  rw [readValue, ht]
  simp [hu, hc]

theorem readValue_object (ht : skipSpace t = '\x7b' :: u) (hu : skipSpace u = '"' :: w) :
    readValue (fuel + 1) depth t = readMembers fuel (depth + 1) (some []) ('"' :: w) := by
  rw [readValue, ht]
  simp [hu]

theorem readItems_more {items : List Json} (hv : readValue fuel depth t = .ok (v, u))
    (hu : skipSpace u = ',' :: w) :
    readItems (fuel + 1) depth items t = readItems fuel depth (v :: items) w := by
  rw [readItems, hv]
  simp [hu]

theorem readItems_last {items : List Json} (hv : readValue fuel depth t = .ok (v, u))
    (hu : skipSpace u = ']' :: w) :
    readItems (fuel + 1) depth items t = .ok (atDepth depth (.array (v :: items).reverse), w) := by
  rw [readItems, hv]
  simp [hu]

/-- The key of a member and its colon, up to the value. -/
theorem readMembers_key {members : Members} {key : String}
    (ht : skipSpace t = (escaped key).toList ++ ':' :: u)
    (hv : readValue fuel depth u = .ok (v, w)) :
    readMembers (fuel + 1) depth (some members) t = match skipSpace w with
      | ',' :: t => readMembers fuel depth (some ((key, v) :: members)) t
      | '\x7d' :: t => .ok (atDepth depth (.object ((key, v) :: members).reverse), t)
      | t => .error (faultAt t) := by
  have hshape : skipSpace t = '"' :: ((key.toList.map escapedChar).flatMap String.toList
      ++ '"' :: ':' :: u) := by
    rw [ht, escaped_toList]
    simp
  have hcolon : skipSpace (':' :: u) = ':' :: u := rfl
  have hstep := readMembers.eq_def (fuel + 1) depth (some members) t
  simp only [hshape, readString_escaped, hcolon, hv] at hstep
  exact hstep

theorem readMembers_more {members : Members} {key : String} {r : List Char}
    (ht : skipSpace t = (escaped key).toList ++ ':' :: u) (hv : readValue fuel depth u = .ok (v, w))
    (hw : skipSpace w = ',' :: r) :
    readMembers (fuel + 1) depth (some members) t
      = readMembers fuel depth (some ((key, v) :: members)) r := by
  rw [readMembers_key ht hv, hw]
  rfl

theorem readMembers_last {members : Members} {key : String} {r : List Char}
    (ht : skipSpace t = (escaped key).toList ++ ':' :: u) (hv : readValue fuel depth u = .ok (v, w))
    (hw : skipSpace w = '\x7d' :: r) :
    readMembers (fuel + 1) depth (some members) t
      = .ok (atDepth depth (.object ((key, v) :: members).reverse), r) := by
  rw [readMembers_key ht hv, hw]
  rfl

end Step

/-! ## 7. The whole text -/

theorem indented_pos (level : Nat) (v : Json) : 0 < (v.indented level).toList.length := by
  obtain ⟨c, more, h, -⟩ := indented_head level v
  rw [h, List.length_cons]
  omega

mutual
/-- The text of a value is read as what comes back of it, whatever follows. -/
theorem readValue_indented : (v : Json) → (level depth fuel : Nat) → (t rest : List Char) →
    UnsignedNumeral.EndsBefore rest → (v.indented level).toList.length ≤ fuel →
    skipSpace t = (v.indented level).toList ++ rest →
    readValue fuel depth t = .ok (v.reread depth, rest)
  | v, level, _, 0, _, _, _, hfuel, _ => by
    have := indented_pos level v
    omega
  | .null, _, _, _ + 1, _, _, _, _, ht => readValue_null ht
  | .unreadable, _, _, _ + 1, _, _, _, _, ht => readValue_null ht
  | .bool true, _, _, _ + 1, _, _, _, _, ht => by
    rw [readValue, ht, indented_true]
    rfl
  | .bool false, _, _, _ + 1, _, _, _, _, ht => by
    rw [readValue, ht, indented_false]
    rfl
  | .int n, _, _, _ + 1, _, _, hrest, _, ht => by
    refine readValue_numeral (.ofNat n.natAbs) ?_ hrest
    rw [ht, indented_int, UnsignedNumeral.writeInt_toList]
    simp
  | .float x, level, _, _ + 1, _, _, hrest, _, ht => by
    rw [indented_float] at ht
    cases hx : x.isFinite with
    | true => exact readValue_float hx (by simpa [hx] using ht) hrest
    | false =>
      rw [reread, rereadFloat, hx]
      exact readValue_null (by simpa [hx] using ht)
  | .string s, _, _, _ + 1, _, _, _, _, ht => readValue_string s ht
  | .array [], _, _, _ + 1, _, _, _, _, ht => by
    rw [readValue, ht, indented_array_nil]
    rfl
  | .object [], _, _, _ + 1, _, _, _, _, ht => by
    rw [readValue, ht, indented_object_nil]
    rfl
  | .array (v :: more), level, depth, fuel + 1, t, rest, _, hfuel, ht => by
    rw [indented_array_cons] at ht hfuel
    obtain ⟨c, w, hw, hspace, hc⟩ :=
      skipSpace_items (level + 1) v more ((newline level).toList ++ ']' :: rest)
    have hinner : skipSpace ((indentedItems (level + 1) (v :: more)).toList
        ++ (newline level).toList ++ [']'] ++ rest) = c :: w := by
      rw [← hw]
      simp
    rw [readValue_array ht hinner hc]
    refine readItems_indented (v :: more) (by simp) (level + 1) level (depth + 1) fuel [] (c :: w)
      rest ?_ ?_
    · simp only [List.length_cons, List.length_append] at hfuel
      omega
    · rw [skipSpace_of_head hspace, hw]
  | .object (m :: more), level, depth, fuel + 1, t, rest, _, hfuel, ht => by
    rw [indented_object_cons] at ht hfuel
    obtain ⟨w, hw⟩ :=
      skipSpace_members (level + 1) m more ((newline level).toList ++ '\x7d' :: rest)
    have hinner : skipSpace ((indentedMembers (level + 1) (m :: more)).toList
        ++ (newline level).toList ++ ['\x7d'] ++ rest) = '"' :: w := by
      rw [← hw]
      simp
    rw [readValue_object ht hinner]
    refine readMembers_indented (m :: more) (by simp) (level + 1) level (depth + 1) fuel []
      ('"' :: w) rest ?_ ?_
    · simp only [List.length_cons, List.length_append] at hfuel
      omega
    · rw [skipSpace_of_head rfl, hw]

/-- The text of the items of an array is read item by item, up to the bracket. -/
theorem readItems_indented : (items : List Json) → items ≠ [] → (level outer depth fuel : Nat) →
    (read : List Json) → (t rest : List Char) → (indentedItems level items).toList.length ≤ fuel →
    skipSpace t = skipSpace ((indentedItems level items).toList ++ ((newline outer).toList
      ++ ']' :: rest)) →
    readItems fuel depth read t
      = .ok (atDepth depth (.array (read.reverse ++ rereadItems depth items)), rest)
  | [], hne, _, _, _, _, _, _, _, _, _ => absurd rfl hne
  | [v], _, level, outer, depth, fuel, read, t, rest, hfuel, ht => by
    rw [indentedItems_single, List.append_assoc, skipSpace_newline, skipSpace_indented] at ht
    rw [indentedItems_single, List.length_append, newline_toList, List.length_cons] at hfuel
    cases fuel with
    | zero => omega
    | succ fuel =>
      have hv := readValue_indented v level depth fuel t ((newline outer).toList ++ ']' :: rest)
        (endsBefore_newline outer _) (by omega) ht
      have hclose : skipSpace ((newline outer).toList ++ ']' :: rest) = ']' :: rest := by
        rw [skipSpace_newline, skipSpace_of_head rfl]
      rw [readItems_last hv hclose]
      simp [rereadItems]
  | v :: w :: more, _, level, outer, depth, fuel, read, t, rest, hfuel, ht => by
    rw [indentedItems_cons, List.append_assoc, List.append_assoc, skipSpace_newline,
      skipSpace_indented] at ht
    rw [indentedItems_cons, List.length_append, List.length_append, newline_toList,
      List.length_cons, List.length_cons] at hfuel
    cases fuel with
    | zero => omega
    | succ fuel =>
      have hv := readValue_indented v level depth fuel t _ (endsBefore_comma _) (by omega) ht
      have hcomma : skipSpace (',' :: (indentedItems level (w :: more)).toList
          ++ ((newline outer).toList ++ ']' :: rest))
            = ',' :: ((indentedItems level (w :: more)).toList
              ++ ((newline outer).toList ++ ']' :: rest)) := skipSpace_of_head rfl
      rw [readItems_more hv hcomma, readItems_indented (w :: more) (by simp) level outer depth fuel
        (v.reread depth :: read) _ rest (by omega) rfl]
      simp [rereadItems]

/-- The text of the members of an object is read member by member, up to the brace. -/
theorem readMembers_indented : (members : Members) → members ≠ [] →
    (level outer depth fuel : Nat) → (read : Members) → (t rest : List Char) →
    (indentedMembers level members).toList.length ≤ fuel →
    skipSpace t = skipSpace ((indentedMembers level members).toList ++ ((newline outer).toList
      ++ '\x7d' :: rest)) →
    readMembers fuel depth (some read) t
      = .ok (atDepth depth (.object (read.reverse ++ rereadMembers depth members)), rest)
  | [], hne, _, _, _, _, _, _, _, _, _ => absurd rfl hne
  | [(key, v)], _, level, outer, depth, fuel, read, t, rest, hfuel, ht => by
    rw [indentedMembers_single, List.append_assoc, List.append_assoc, skipSpace_newline,
      skipSpace_escaped] at ht
    rw [indentedMembers_single, List.length_append, List.length_append, newline_toList,
      List.length_cons, List.length_cons, List.length_cons] at hfuel
    cases fuel with
    | zero => omega
    | succ fuel =>
      have hspace : skipSpace (' ' :: (v.indented level).toList
          ++ ((newline outer).toList ++ '\x7d' :: rest)) = (v.indented level).toList
          ++ ((newline outer).toList ++ '\x7d' :: rest) := skipSpace_indented level v _
      have hv := readValue_indented v level depth fuel _ _ (endsBefore_newline outer _) (by omega)
        hspace
      have hclose : skipSpace ((newline outer).toList ++ '\x7d' :: rest) = '\x7d' :: rest := by
        rw [skipSpace_newline, skipSpace_of_head rfl]
      rw [readMembers_last ht hv hclose]
      simp [rereadMembers, rereadMember]
  | (key, v) :: m :: more, _, level, outer, depth, fuel, read, t, rest, hfuel, ht => by
    rw [indentedMembers_cons, List.append_assoc, List.append_assoc, List.append_assoc,
      skipSpace_newline, skipSpace_escaped] at ht
    rw [indentedMembers_cons, List.length_append, List.length_append, List.length_append,
      newline_toList, List.length_cons, List.length_cons, List.length_cons, List.length_cons]
      at hfuel
    cases fuel with
    | zero => omega
    | succ fuel =>
      have hspace : skipSpace (' ' :: (v.indented level).toList
          ++ (',' :: (indentedMembers level (m :: more)).toList
            ++ ((newline outer).toList ++ '\x7d' :: rest))) = (v.indented level).toList
          ++ (',' :: (indentedMembers level (m :: more)).toList
            ++ ((newline outer).toList ++ '\x7d' :: rest)) := skipSpace_indented level v _
      have hv := readValue_indented v level depth fuel _ _ (endsBefore_comma _) (by omega) hspace
      have hcomma : skipSpace (',' :: (indentedMembers level (m :: more)).toList
          ++ ((newline outer).toList ++ '\x7d' :: rest))
            = ',' :: ((indentedMembers level (m :: more)).toList
              ++ ((newline outer).toList ++ '\x7d' :: rest)) := skipSpace_of_head rfl
      rw [readMembers_more ht hv hcomma, readMembers_indented (m :: more) (by simp) level outer
        depth fuel ((key, v.reread depth) :: read) _ rest (by omega) rfl]
      simp [rereadMembers, rereadMember]
end

/-- **The text of a value is read as what comes back of it.** -/
theorem parse_pretty (v : Json) : parse (v.pretty ++ "\n") = .ok (v.reread 0) := by
  have hends : UnsignedNumeral.EndsBefore ['\n'] := by
    intro c hc
    cases hc
    decide
  have hread := readValue_indented v 0 0 (2 * (v.pretty ++ "\n").toList.length + 2)
    (v.pretty ++ "\n").toList ['\n'] hends
    (by rw [String.toList_append, List.length_append, pretty]; omega)
    (by rw [String.toList_append]; exact skipSpace_indented 0 v _)
  simp only [parse, hread]
  rfl

end ApiSurface.Json
