/-!
Cutting a text at a separator and replacing parts of it.

Cutting at a character loses nothing: joining the pieces with the character gives the text back, so
a text without the separator is its own single piece and the empty text has one empty piece.
-/

namespace ApiTypings.Text

/-- The pieces of a text between the occurrences of a character. -/
def pieces (sep : Char) (s : String) : List String := (s.toList.splitOn sep).map String.ofList

/-- Whether a character ends a line: the line and form feeds, the carriage return and the separators
of paragraphs, lines and information units above that of fields. -/
def endsLine (c : Char) : Bool :=
  let n := c.toNat
  (10 ≤ n && n ≤ 13) || (28 ≤ n && n ≤ 30) || n == 0x85 || n == 0x2028 || n == 0x2029

/-- The lines of a text. A line feed behind a carriage return ends no line of its own, and what
follows the last end of a line is a line unless it is empty. -/
def linesOfChars (current : List Char) : List Char → List (List Char)
  | [] => if current.isEmpty then [] else [current.reverse]
  | '\r' :: '\n' :: rest => current.reverse :: linesOfChars [] rest
  | c :: rest =>
    if endsLine c then current.reverse :: linesOfChars [] rest
    else linesOfChars (c :: current) rest

def lines (s : String) : List String := (linesOfChars [] s.toList).map String.ofList

/-- Joins texts, writing a separator between them. -/
def join (sep : String) (parts : List String) : String := sep.intercalate parts

/-- The characters with each occurrence of `old`, from the left and without overlap, replaced. -/
def replaceChars (old new : List Char) : List Char → List Char
  | [] => []
  | c :: rest =>
    if old.isPrefixOf (c :: rest) then
      new ++ replaceChars old new (rest.drop (old.length - 1))
    else c :: replaceChars old new rest
termination_by cs => cs.length
decreasing_by
  · simp only [List.length_drop, List.length_cons]; omega
  · simp

/-- A text with each occurrence of another one replaced. -/
def replace (old new s : String) : String :=
  String.ofList (replaceChars old.toList new.toList s.toList)

/-- Whether one text occurs within another. -/
def occursIn (part : List Char) : List Char → Bool
  | [] => part.isEmpty
  | c :: rest => part.isPrefixOf (c :: rest) || occursIn part rest

theorem length_replaceChars_of_eq {old new : List Char} (h : new.length = old.length)
    (cs : List Char) : (replaceChars old new cs).length ≤ cs.length := by
  fun_induction replaceChars old new cs with
  | case1 => simp
  | case2 c rest hp ih =>
      have hlen := (List.isPrefixOf_iff_prefix.1 hp).length_le
      simp only [List.length_append, List.length_drop, List.length_cons] at ih hlen ⊢
      omega
  | case3 c rest hp ih => simpa using ih

end ApiTypings.Text
