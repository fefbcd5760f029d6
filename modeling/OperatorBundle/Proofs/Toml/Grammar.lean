import OperatorBundle.Toml.Document

/-!
# The grammar of TOML

What the texts of documents say.  Each relation stands between a text, what its beginning says, and
what follows this beginning.  It says nothing about how a beginning is found: where a text has several
beginnings of a kind, what must follow tells them apart.

A value nests arrays and inline tables at most as deep as the number in front says, and no key has
more parts than the limit.  Every text that a document can have at all is one for some limit.
-/

namespace OperatorBundle.Toml.Grammar

/-! ## Between words -/

/-- Blanks, perhaps none. -/
def Blanks (text rest : List Char) : Prop :=
  ∃ blanks, text = blanks ++ rest ∧ ∀ c ∈ blanks, isBlank c = true

/-- A line feed, in front of which a carriage return may stand. -/
inductive Newline : List Char → List Char → Prop where
  | feed (rest : List Char) : Newline ('\n' :: rest) rest
  | returned (rest : List Char) : Newline ('\r' :: '\n' :: rest) rest

/-- Blanks and line ends, perhaps none. -/
inductive Space : List Char → List Char → Prop where
  | none (rest : List Char) : Space rest rest
  | blank {c : Char} {text rest : List Char} (hc : isBlank c = true) (h : Space text rest) :
      Space (c :: text) rest
  | newline {text next rest : List Char} (hline : Newline text next) (h : Space next rest) :
      Space text rest

/-- A comment, or none. -/
inductive Comment : List Char → List Char → Prop where
  | none (rest : List Char) : Comment rest rest
  | some {said : List Char} (hsaid : ∀ c ∈ said, isText c = true) (rest : List Char) :
      Comment ('#' :: (said ++ rest)) rest

/-- The end of a line or of the text, behind blanks and a comment. -/
inductive LineEnd : List Char → List Char → Prop where
  | line {text shown stop rest : List Char} (hblanks : Blanks text shown)
      (hcomment : Comment shown stop) (hline : Newline stop rest) : LineEnd text rest
  | last {text shown : List Char} (hblanks : Blanks text shown) (hcomment : Comment shown []) :
      LineEnd text []

/-- Ends of lines and blanks, as they stand between the items of an array. -/
inductive Gap : List Char → List Char → Prop where
  | blanks {text rest : List Char} (h : Blanks text rest) : Gap text rest
  | line {text shown stop next rest : List Char} (hblanks : Blanks text shown)
      (hcomment : Comment shown stop) (hline : Newline stop next) (h : Gap next rest) :
      Gap text rest

/-! ## Strings -/

/-- Is this a digit of a base? -/
def IsDigit (base : Nat) (c : Char) : Prop := (digit? base c).isSome = true

/-- The characters that have an escape of their own. -/
def escapes : List (Char × Char) :=
  [('b', '\x08'), ('t', '\t'), ('n', '\n'), ('f', '\x0C'), ('r', '\r'), ('"', '"'), ('\\', '\\')]

/-- The lengths of the codes behind their marks. -/
def codeLengths : List (Char × Nat) := [('u', 4), ('U', 8)]

/-- What a backslash and the text behind it stand for. -/
inductive Escape : List Char → Char → List Char → Prop where
  | short {mark c : Char} (h : (mark, c) ∈ escapes) (rest : List Char) :
      Escape (mark :: rest) c rest
  | code {mark c : Char} {digits : List Char} (hmark : (mark, digits.length) ∈ codeLengths)
      (hdigits : ∀ d ∈ digits, IsDigit 16 d) (hc : c.toNat = number 16 digits) (rest : List Char) :
      Escape (mark :: (digits ++ rest)) c rest

/-- A string on one line, behind its opening quote. -/
inductive Basic : List Char → List Char → List Char → Prop where
  | close (rest : List Char) : Basic ('"' :: rest) [] rest
  | char {c : Char} {text said rest : List Char} (hc : isText c = true) (hquote : c ≠ '"')
      (hescape : c ≠ '\\') (h : Basic text said rest) : Basic (c :: text) (c :: said) rest
  | escape {c : Char} {text next said rest : List Char} (hescape : Escape text c next)
      (h : Basic next said rest) : Basic ('\\' :: text) (c :: said) rest

/-- A string on one line without escapes, behind its opening quote. -/
inductive Literal : List Char → List Char → List Char → Prop where
  | close (rest : List Char) : Literal ('\'' :: rest) [] rest
  | char {c : Char} {text said rest : List Char} (hc : isText c = true) (hquote : c ≠ '\'')
      (h : Literal text said rest) : Literal (c :: text) (c :: said) rest

/-- A string of several lines, behind its opening quotes and the line end that may follow them. -/
inductive Multiline (quote : Char) : List Char → List Char → List Char → Prop where
  /-- One or two quotes in front of the closing ones belong to the string. -/
  | close {n : Nat} (hn : n ≤ 2) (rest : List Char) :
      Multiline quote (List.replicate (n + 3) quote ++ rest) (List.replicate n quote) rest
  | quotes {n : Nat} {text said rest : List Char} (hn : n = 1 ∨ n = 2)
      (hend : text.head? ≠ some quote) (h : Multiline quote text said rest) :
      Multiline quote (List.replicate n quote ++ text) (List.replicate n quote ++ said) rest
  | newline {text next said rest : List Char} (hline : Newline text next)
      (h : Multiline quote next said rest) : Multiline quote text ('\n' :: said) rest
  | char {c : Char} {text said rest : List Char} (hc : isText c = true) (hquote : c ≠ quote)
      (hescape : quote = '"' → c ≠ '\\') (h : Multiline quote text said rest) :
      Multiline quote (c :: text) (c :: said) rest
  | escape {c : Char} {text next said rest : List Char} (hquote : quote = '"')
      (hescape : Escape text c next) (h : Multiline quote next said rest) :
      Multiline quote ('\\' :: text) (c :: said) rest
  /-- A backslash at the end of a line joins it to the next word. -/
  | joined {text stop next word said rest : List Char} (hquote : quote = '"')
      (hblanks : Blanks text stop) (hline : Newline stop next) (hspace : Space next word)
      (hword : ∀ further, Space word further → further = word)
      (h : Multiline quote word said rest) : Multiline quote ('\\' :: text) said rest

/-- A string of either kind of quotes. -/
inductive Quoted : List Char → List Char → List Char → Prop where
  | basic {text said rest : List Char} (h : Basic text said rest) : Quoted ('"' :: text) said rest
  | literal {text said rest : List Char} (h : Literal text said rest) :
      Quoted ('\'' :: text) said rest
  | lines {quote : Char} {text said rest : List Char} (hquote : quote = '"' ∨ quote = '\'')
      (hfirst : ∀ next, ¬ Newline text next) (h : Multiline quote text said rest) :
      Quoted (quote :: quote :: quote :: text) said rest
  | linesBelow {quote : Char} {text next said rest : List Char} (hquote : quote = '"' ∨ quote = '\'')
      (hfirst : Newline text next) (h : Multiline quote next said rest) :
      Quoted (quote :: quote :: quote :: text) said rest

/-! ## Keys -/

/-- One part of a dotted key. -/
inductive KeyPart : List Char → String → List Char → Prop where
  | bare {said : List Char} (hne : said ≠ []) (hsaid : ∀ c ∈ said, isKeyChar c = true)
      (rest : List Char) : KeyPart (said ++ rest) (String.ofList said) rest
  | basic {text said rest : List Char} (h : Basic text said rest) :
      KeyPart ('"' :: text) (String.ofList said) rest
  | literal {text said rest : List Char} (h : Literal text said rest) :
      KeyPart ('\'' :: text) (String.ofList said) rest

/-- A dotted key with the blanks around and between its parts. -/
inductive DottedKey : List Char → Key → List Char → Prop where
  | last {text start stop rest : List Char} {part : String} (hbefore : Blanks text start)
      (hpart : KeyPart start part stop) (hbehind : Blanks stop rest) : DottedKey text [part] rest
  | more {text start stop next rest : List Char} {part : String} {key : Key}
      (hbefore : Blanks text start) (hpart : KeyPart start part stop)
      (hbehind : Blanks stop ('.' :: next)) (h : DottedKey next key rest) :
      DottedKey text (part :: key) rest

/-! ## Numbers -/

/-- Digits of a base with single underscores between them. -/
inductive Digits (base : Nat) : List Char → List Char → List Char → Prop where
  | last {c : Char} (hc : IsDigit base c) (rest : List Char) : Digits base (c :: rest) [c] rest
  | next {c : Char} {text digits rest : List Char} (hc : IsDigit base c)
      (h : Digits base text digits rest) : Digits base (c :: text) (c :: digits) rest
  | apart {c : Char} {text digits rest : List Char} (hc : IsDigit base c)
      (h : Digits base text digits rest) : Digits base (c :: '_' :: text) (c :: digits) rest

/-- The digits of a whole number, which begins with a zero only if it is zero. -/
inductive Whole : List Char → List Char → List Char → Prop where
  | zero (rest : List Char) : Whole ('0' :: rest) ['0'] rest
  | digits {c : Char} {text digits rest : List Char} (hc : c ≠ '0')
      (h : Digits 10 (c :: text) digits rest) : Whole (c :: text) digits rest

/-- A sign, or none: is it a minus? -/
inductive Sign : List Char → Bool → List Char → Prop where
  | none (rest : List Char) : Sign rest false rest
  | plus (rest : List Char) : Sign ('+' :: rest) false rest
  | minus (rest : List Char) : Sign ('-' :: rest) true rest

/-- A number with a sign. -/
def signed (negative : Bool) (n : Nat) : Int := if negative then -n else n

/-- The marks behind a zero that name another base than ten. -/
def bases : List (Char × Nat) := [('x', 16), ('o', 8), ('b', 2)]

/-- An integer of 64 bits. -/
inductive Integer : List Char → Int → List Char → Prop where
  | decimal {text start digits rest : List Char} {negative : Bool} (hsign : Sign text negative start)
      (hdigits : Whole start digits rest)
      (hsize : -2 ^ (63 : Nat) ≤ signed negative (number 10 digits) ∧
        signed negative (number 10 digits) < 2 ^ (63 : Nat)) :
      Integer text (signed negative (number 10 digits)) rest
  | inBase {mark : Char} {base : Nat} {text digits rest : List Char} (hmark : (mark, base) ∈ bases)
      (hdigits : Digits base text digits rest) (hsize : number base digits < 2 ^ (63 : Nat)) :
      Integer ('0' :: mark :: text) (number base digits) rest

/-- A point with the places behind it, or none. -/
inductive Places : List Char → List Char → List Char → Prop where
  | none (rest : List Char) : Places rest [] rest
  | some {text digits rest : List Char} (h : Digits 10 text digits rest) :
      Places ('.' :: text) digits rest

/-- An exponent, or none. -/
inductive Exponent : List Char → Int → List Char → Prop where
  | none (rest : List Char) : Exponent rest 0 rest
  | some {mark : Char} {text start digits rest : List Char} {negative : Bool}
      (hmark : mark = 'e' ∨ mark = 'E') (hsign : Sign text negative start)
      (hdigits : Digits 10 start digits rest) :
      Exponent (mark :: text) (signed negative (number 10 digits)) rest

/-- The words for infinity and not-a-number. -/
def specialFloats : List (List Char) := [['i', 'n', 'f'], ['n', 'a', 'n']]

/-- A float.  It has places or an exponent, and a positive one does not exceed all finite numbers. -/
inductive Float : List Char → List Char → Prop where
  | special {text rest word : List Char} {negative : Bool} (hword : word ∈ specialFloats)
      (hsign : Sign text negative (word ++ rest)) : Float text rest
  | number {text start point mark rest digits places : List Char} {negative : Bool} {exponent : Int}
      (hsign : Sign text negative start) (hdigits : Whole start digits point)
      (hplaces : Places point places mark) (hexponent : Exponent mark exponent rest)
      (hpoint : point ≠ rest)
      (hfinite : Decimal.Binary64.ofDecimal negative (Toml.number 10 (digits ++ places))
        (exponent - places.length) ≠ .infinity false) : Float text rest

/-- A number of so many digits. -/
def Fixed (width : Nat) (text : List Char) (n : Nat) (rest : List Char) : Prop :=
  ∃ digits, text = digits ++ rest ∧ digits.length = width ∧ (∀ d ∈ digits, isDigit d = true) ∧
    n = number 10 digits

/-- A date that exists. -/
inductive Date : List Char → List Char → Prop where
  | mk {text afterYear afterMonth rest : List Char} {year month day : Nat}
      (hyear : Fixed 4 text year ('-' :: afterYear))
      (hmonth : Fixed 2 afterYear month ('-' :: afterMonth)) (hday : Fixed 2 afterMonth day rest)
      (hmonths : 1 ≤ month ∧ month ≤ 12) (hdays : 1 ≤ day ∧ day ≤ daysOf year month) :
      Date text rest

/-- Hours and minutes. -/
inductive HourMinute : List Char → List Char → Prop where
  | mk {text afterHour rest : List Char} {hour minute : Nat}
      (hhour : Fixed 2 text hour (':' :: afterHour)) (hminute : Fixed 2 afterHour minute rest)
      (hhours : hour ≤ 23) (hminutes : minute ≤ 59) : HourMinute text rest

/-- The part of a second behind a point, or none. -/
inductive Fraction : List Char → List Char → Prop where
  | none (rest : List Char) : Fraction rest rest
  | some {digits : List Char} (hne : digits ≠ []) (hdigits : ∀ d ∈ digits, isDigit d = true)
      (rest : List Char) : Fraction ('.' :: (digits ++ rest)) rest

/-- A time of day; the second may be a leap second. -/
inductive Time : List Char → List Char → Prop where
  | mk {text afterMinute afterSecond rest : List Char} {second : Nat}
      (hminute : HourMinute text (':' :: afterMinute)) (hsecond : Fixed 2 afterMinute second afterSecond)
      (hseconds : second ≤ 60) (hfraction : Fraction afterSecond rest) : Time text rest

/-- The offset of a time, or none. -/
inductive Offset : List Char → List Char → Prop where
  | none (rest : List Char) : Offset rest rest
  | zero {mark : Char} (hmark : mark = 'Z' ∨ mark = 'z') (rest : List Char) :
      Offset (mark :: rest) rest
  | apart {mark : Char} {text rest : List Char} (hmark : mark = '+' ∨ mark = '-')
      (h : HourMinute text rest) : Offset (mark :: text) rest

/-- A date, a time, or both. -/
inductive DateTime : List Char → List Char → Prop where
  | date {text rest : List Char} (h : Date text rest) : DateTime text rest
  | time {text rest : List Char} (h : Time text rest) : DateTime text rest
  | both {mark : Char} {text afterDate afterTime rest : List Char}
      (hdate : Date text (mark :: afterDate)) (hmark : mark = 'T' ∨ mark = 't' ∨ mark = ' ')
      (htime : Time afterDate afterTime) (hoffset : Offset afterTime rest) : DateTime text rest

/-- A number, a date or a time. -/
inductive Numeric : List Char → Value → List Char → Prop where
  | integer {text rest : List Char} {n : Int} (h : Integer text n rest) :
      Numeric text (.integer n) rest
  | float {text rest : List Char} (h : Float text rest) : Numeric text .float rest
  | dateTime {text rest : List Char} (h : DateTime text rest) : Numeric text .dateTime rest

/-! ## Tables -/

/-- The entries under keys that begin with a name, under the rest of these keys. -/
def below (name : String) (entries : List (Key × Value)) : List (Key × Value) :=
  entries.filterMap fun (key, v) => match key with
    | [] => none
    | first :: rest => if first = name then some (rest, v) else none

/-- The entries under keys that do not begin with a name. -/
def beside (name : String) (entries : List (Key × Value)) : List (Key × Value) :=
  entries.filter fun (key, _) => key.head? ≠ some name

/-- Entries under dotted keys make up a table.  Each name stands where it appears first.  It stands for
one value, or for the table that the entries under longer keys with this name in front make up. -/
inductive Collects : List (Key × Value) → Table → Prop where
  | none : Collects [] []
  | value {name : String} {v : Value} {entries : List (Key × Value)} {table : Table}
      (honce : ∀ e ∈ entries, e.1.head? ≠ some name) (h : Collects entries table) :
      Collects (([name], v) :: entries) ((name, v) :: table)
  | table {name next : String} {key : Key} {v : Value} {entries : List (Key × Value)}
      {inner table : Table} (honce : ∀ e ∈ entries, e.1 ≠ [name])
      (hbelow : Collects ((next :: key, v) :: below name entries) inner)
      (hbeside : Collects (beside name entries) table) :
      Collects ((name :: next :: key, v) :: entries) ((name, .table inner) :: table)

/-! ## Values -/

/-- What a text inside a value can say: a value, items of an array behind its bracket or a comma, or
entries of an inline table behind its brace or a comma. -/
inductive Part where
  | value (v : Value)
  | items (vs : List Value)
  | entries (es : List (Key × Value))

/-- The values of documents, and the parts of arrays and inline tables. -/
inductive Says (limit : Nat) : Nat → List Char → Part → List Char → Prop where
  | string {depth : Nat} {text said rest : List Char} (h : Quoted text said rest) :
      Says limit depth text (.value (.string (String.ofList said))) rest
  | yes (depth : Nat) (rest : List Char) :
      Says limit depth ('t' :: 'r' :: 'u' :: 'e' :: rest) (.value (.boolean true)) rest
  | no (depth : Nat) (rest : List Char) :
      Says limit depth ('f' :: 'a' :: 'l' :: 's' :: 'e' :: rest) (.value (.boolean false)) rest
  | numeric {depth : Nat} {text rest : List Char} {v : Value} (h : Numeric text v rest) :
      Says limit depth text (.value v) rest
  | array {depth : Nat} {text rest : List Char} {vs : List Value}
      (h : Says limit depth text (.items vs) rest) :
      Says limit (depth + 1) ('[' :: text) (.value (.array vs)) rest
  | emptyTable {depth : Nat} {text rest : List Char} (h : Blanks text ('}' :: rest)) :
      Says limit (depth + 1) ('{' :: text) (.value (.table [])) rest
  | table {depth : Nat} {text rest : List Char} {es : List (Key × Value)} {table : Table}
      (h : Says limit depth text (.entries es) rest) (htable : Collects es table) :
      Says limit (depth + 1) ('{' :: text) (.value (.table table)) rest
  | noItem {depth : Nat} {text rest : List Char} (h : Gap text (']' :: rest)) :
      Says limit depth text (.items []) rest
  | lastItem {depth : Nat} {text start stop rest : List Char} {v : Value} (hbefore : Gap text start)
      (hv : Says limit depth start (.value v) stop) (hbehind : Gap stop (']' :: rest)) :
      Says limit depth text (.items [v]) rest
  | item {depth : Nat} {text start stop next rest : List Char} {v : Value} {vs : List Value}
      (hbefore : Gap text start) (hv : Says limit depth start (.value v) stop)
      (hbehind : Gap stop (',' :: next)) (h : Says limit depth next (.items vs) rest) :
      Says limit depth text (.items (v :: vs)) rest
  | lastEntry {depth : Nat} {text start word stop rest : List Char} {key : Key} {v : Value}
      (hkey : DottedKey text key ('=' :: start)) (hparts : key.length ≤ limit)
      (hbefore : Blanks start word) (hv : Says limit depth word (.value v) stop)
      (hbehind : Blanks stop ('}' :: rest)) : Says limit depth text (.entries [(key, v)]) rest
  | entry {depth : Nat} {text start word stop next rest : List Char} {key : Key} {v : Value}
      {es : List (Key × Value)} (hkey : DottedKey text key ('=' :: start))
      (hparts : key.length ≤ limit) (hbefore : Blanks start word)
      (hv : Says limit depth word (.value v) stop) (hbehind : Blanks stop (',' :: next))
      (h : Says limit depth next (.entries es) rest) :
      Says limit depth text (.entries ((key, v) :: es)) rest

/-! ## Documents -/

/-- A heading, or a value under a key. -/
inductive Line (limit : Nat) : List Char → Statement → List Char → Prop where
  | table {text rest : List Char} {key : Key} (hkey : DottedKey text key (']' :: rest))
      (hparts : key.length ≤ limit) : Line limit ('[' :: text) (.table key) rest
  | element {text rest : List Char} {key : Key} (hkey : DottedKey text key (']' :: ']' :: rest))
      (hparts : key.length ≤ limit) : Line limit ('[' :: '[' :: text) (.element key) rest
  | assignment {text start word rest : List Char} {key : Key} {v : Value}
      (hkey : DottedKey text key ('=' :: start)) (hparts : key.length ≤ limit)
      (hbefore : Blanks start word) (hv : Says limit limit word (.value v) rest) :
      Line limit text (.assignment key v) rest

/-- The lines of a document, of which some say nothing. -/
inductive Lines (limit : Nat) : List Char → List Statement → Prop where
  | none : Lines limit [] []
  | empty {text next : List Char} {statements : List Statement} (hend : LineEnd text next)
      (h : Lines limit next statements) : Lines limit text statements
  | line {text start stop next : List Char} {statement : Statement} {statements : List Statement}
      (hbefore : Blanks text start) (hline : Line limit start statement stop)
      (hend : LineEnd stop next) (h : Lines limit next statements) :
      Lines limit text (statement :: statements)

/-- A document; a mark of the order of bytes may stand in front. -/
inductive Document (limit : Nat) : List Char → List Statement → Prop where
  | plain {text : List Char} {statements : List Statement} (h : Lines limit text statements) :
      Document limit text statements
  | marked {text : List Char} {statements : List Statement} (h : Lines limit text statements) :
      Document limit ('\uFEFF' :: text) statements

end OperatorBundle.Toml.Grammar
