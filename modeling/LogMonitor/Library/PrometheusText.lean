import LogMonitor.Library.ByteString
import Mathlib.Data.List.TakeWhile
import Mathlib.Data.Option.Basic

/-!
Samples in the text format of Prometheus, version 0.0.4: a metric name, labels
in braces, a value and perhaps a timestamp, with blanks between them. The value
of a label is UTF-8, and its backslashes, quotes and line feeds are escaped. What
a number is, is left to a parameter.
-/

namespace LogMonitor.Library.Prometheus
open ByteString

/-- A sample, with the labels and their values in the order in which they are written. -/
structure Sample (V : Type) where
  name : Bytes
  labels : List (Bytes × Bytes)
  value : V
  timestamp : Option Int

section Parser

def blank (c : UInt8) : Bool := c = 32 || c = 9

def skipBlanks (s : Bytes) : Bytes := s.dropWhile blank

def isLetter (c : UInt8) : Bool := (65 ≤ c && c ≤ 90) || (97 ≤ c && c ≤ 122)

def labelStart (c : UInt8) : Bool := isLetter c || c = 95

def labelPart (c : UInt8) : Bool := labelStart c || isDigit c

def nameStart (c : UInt8) : Bool := labelStart c || c = 58

def namePart (c : UInt8) : Bool := nameStart c || isDigit c

def readName (start part : UInt8 → Bool) (s : Bytes) : Option (Bytes × Bytes) :=
  match s with
  | [] => none
  | c :: _ => if start c then some (s.takeWhile part, s.dropWhile part) else none

def unescaped (c : UInt8) : Option UInt8 :=
  if c = 92 then some 92 else if c = 34 then some 34 else if c = 110 then some 10 else none

def readValue : Bytes → Option (Bytes × Bytes)
  | [] => none
  | c :: rest =>
    if c = 34 then some ([], rest)
    else if c = 10 then none
    else if c = 92 then
      match rest with
      | [] => none
      | e :: rest =>
        (unescaped e).bind fun b => (readValue rest).map fun read => (b :: read.1, read.2)
    else (readValue rest).map fun read => (c :: read.1, read.2)

/-- Labels up to the closing brace. A comma may stand behind the last of them. -/
def readLabels : Nat → Bytes → Option (List (Bytes × Bytes) × Bytes)
  | 0, _ => none
  | fuel + 1, s =>
    match skipBlanks s with
    | [] => none
    | c :: s =>
      if c = 125 then some ([], s)
      else
        match readName labelStart labelPart (c :: s) with
        | none => none
        | some (name, s) =>
          match skipBlanks s with
          | 61 :: s =>
            match skipBlanks s with
            | 34 :: s =>
              match readValue s with
              | none => none
              | some (value, s) =>
                match skipBlanks s with
                | 125 :: s => some ([(name, value)], s)
                | 44 :: s => (readLabels fuel s).map fun read => ((name, value) :: read.1, read.2)
                | _ => none
            | _ => none
          | _ => none

def readBraces (s : Bytes) : Option (List (Bytes × Bytes) × Bytes) :=
  match s with
  | 123 :: s => readLabels (s.length + 1) s
  | s => some ([], s)

def integer (token : Bytes) : Option Int :=
  let negative := token.head? = some 45
  let digits := if negative ∨ token.head? = some 43 then token.tail else token
  if digits ≠ [] ∧ digits.all isDigit then
    some (if negative then -(decimal digits : Int) else decimal digits)
  else none

def readTimestamp (s : Bytes) : Option (Option Int) :=
  if s = [] then some none
  else if skipBlanks (s.dropWhile fun c => !blank c) ≠ [] then none
  else (integer (s.takeWhile fun c => !blank c)).map some

def readAmount {V : Type} (number : Bytes → Option V) (name : Bytes)
    (labels : List (Bytes × Bytes)) (s : Bytes) : Option (Sample V) := do
  guard (∀ label ∈ labels, Utf8 label.2)
  let s := skipBlanks s
  let value ← number (s.takeWhile fun c => !blank c)
  let timestamp ← readTimestamp (skipBlanks (s.dropWhile fun c => !blank c))
  return ⟨name, labels, value, timestamp⟩

def parseSample {V : Type} (number : Bytes → Option V) (line : Bytes) : Option (Sample V) := do
  let (name, s) ← readName nameStart namePart (skipBlanks line)
  let (labels, s) ← readBraces (skipBlanks s)
  readAmount number name labels s

end Parser

section Values

theorem readValue_quote (rest : Bytes) : readValue (34 :: rest) = some ([], rest) := by
  rw [readValue.eq_def]
  rfl

theorem readValue_escaped (e : UInt8) (rest : Bytes) : readValue (92 :: e :: rest) =
    (unescaped e).bind fun b => (readValue rest).map fun read => (b :: read.1, read.2) := by
  rw [readValue.eq_def]
  rfl

theorem readValue_plain {c : UInt8} (quote : c ≠ 34) (backslash : c ≠ 92) (newline : c ≠ 10)
    (rest : Bytes) :
    readValue (c :: rest) = (readValue rest).map fun read => (c :: read.1, read.2) := by
  rw [readValue.eq_def]
  simp only [quote, backslash, newline, if_false]

def Plain (value : Bytes) : Prop := 34 ∉ value ∧ 92 ∉ value ∧ 10 ∉ value

instance (value : Bytes) : Decidable (Plain value) := inferInstanceAs (Decidable (_ ∧ _))

def escape (value : Bytes) : Bytes :=
  value.flatMap fun c =>
    if c = 92 then [92, 92] else if c = 34 then [92, 34] else if c = 10 then [92, 110] else [c]

theorem escape_plain {value : Bytes} (plain : Plain value) : escape value = value := by
  have each : ∀ c ∈ value, (if c = 92 then [92, 92] else if c = 34 then [92, 34]
      else if c = 10 then [92, 110] else [c]) = [c] := by
    intro c listed
    have quote : c ≠ 34 := fun same => plain.1 (same ▸ listed)
    have backslash : c ≠ 92 := fun same => plain.2.1 (same ▸ listed)
    have newline : c ≠ 10 := fun same => plain.2.2 (same ▸ listed)
    simp [quote, backslash, newline]
  rw [escape, List.flatMap_congr each]
  exact List.flatMap_singleton' value

theorem readValue_escape (value rest : Bytes) :
    readValue (escape value ++ 34 :: rest) = some (value, rest) := by
  induction value with
  | nil => exact readValue_quote rest
  | cons c value ih =>
    have first : escape (c :: value) = (if c = 92 then [92, 92] else if c = 34 then [92, 34]
        else if c = 10 then [92, 110] else [c]) ++ escape value := List.flatMap_cons
    rw [first, List.append_assoc]
    by_cases backslash : c = 92
    · rw [if_pos backslash, backslash]
      change readValue (92 :: 92 :: (escape value ++ 34 :: rest)) = _
      rw [readValue_escaped, ih]
      rfl
    by_cases quote : c = 34
    · rw [if_neg backslash, if_pos quote, quote]
      change readValue (92 :: 34 :: (escape value ++ 34 :: rest)) = _
      rw [readValue_escaped, ih]
      rfl
    by_cases newline : c = 10
    · rw [if_neg backslash, if_neg quote, if_pos newline, newline]
      change readValue (92 :: 110 :: (escape value ++ 34 :: rest)) = _
      rw [readValue_escaped, ih]
      rfl
    · rw [if_neg backslash, if_neg quote, if_neg newline]
      change readValue (c :: (escape value ++ 34 :: rest)) = _
      rw [readValue_plain quote backslash newline, ih]
      rfl

/-- Of a text that ends with a quote no more than the text is read, and all of it only if it is
plain; or its last quote is escaped, and what is behind it is read as well. -/
theorem readValue_quoted {written rest value after : Bytes} (line : 10 ∉ written)
    (read : readValue (written ++ 34 :: rest) = some (value, after)) :
    (value.length ≤ written.length ∧
        (value.length = written.length → value = written ∧ Plain written)) ∨
      ∃ more, readValue rest = some (more, after) := by
  -- by the escapes, which may take two bytes
  induction written using List.twoStepInduction generalizing value with
  | nil =>
    rw [List.nil_append, readValue_quote] at read
    cases read
    exact .inl ⟨le_rfl, fun _ => ⟨rfl, by simp [Plain]⟩⟩
  | singleton c =>
    by_cases quote : c = 34
    · rw [quote, List.singleton_append, readValue_quote] at read
      cases read
      exact .inl ⟨Nat.zero_le _, nofun⟩
    by_cases backslash : c = 92
    · rw [backslash, List.singleton_append, readValue_escaped] at read
      obtain ⟨_, -, read⟩ := Option.bind_eq_some_iff.mp read
      obtain ⟨⟨more, _⟩, inside, same⟩ := Option.map_eq_some_iff.mp read
      cases same
      exact .inr ⟨more, inside⟩
    have newline : c ≠ 10 := fun same => line (by simp [same])
    rw [List.singleton_append, readValue_plain quote backslash newline, readValue_quote] at read
    cases read
    exact .inl ⟨le_rfl, fun _ => ⟨rfl, by simp [Plain, Ne.symm quote, Ne.symm backslash, line]⟩⟩
  | cons_cons c e written ih ih' =>
    have lineRest : 10 ∉ e :: written := List.not_mem_of_not_mem_cons line
    by_cases quote : c = 34
    · rw [quote, List.cons_append, readValue_quote] at read
      cases read
      exact .inl ⟨Nat.zero_le _, nofun⟩
    by_cases backslash : c = 92
    · rw [backslash, List.cons_append, List.cons_append, readValue_escaped] at read
      obtain ⟨_, -, read⟩ := Option.bind_eq_some_iff.mp read
      obtain ⟨⟨more, _⟩, inside, same⟩ := Option.map_eq_some_iff.mp read
      cases same
      rcases ih (List.not_mem_of_not_mem_cons lineRest) inside with ⟨shorter, -⟩ | further
      · refine .inl ⟨?_, fun same => ?_⟩ <;> simp only [List.length_cons] at * <;> omega
      · exact .inr further
    have newline : c ≠ 10 := fun same => line (by simp [same])
    rw [List.cons_append, readValue_plain quote backslash newline] at read
    obtain ⟨⟨more, _⟩, inside, same⟩ := Option.map_eq_some_iff.mp read
    cases same
    rcases ih' e lineRest inside with ⟨shorter, whole⟩ | further
    · refine .inl ⟨Nat.succ_le_succ shorter, fun same => ?_⟩
      obtain ⟨rfl, plain⟩ := whole (Nat.succ.inj same)
      refine ⟨rfl, ?_, ?_, line⟩
      · exact List.not_mem_cons_of_ne_of_not_mem (Ne.symm quote) plain.1
      · exact List.not_mem_cons_of_ne_of_not_mem (Ne.symm backslash) plain.2.1
    · exact .inr further

end Values

section Names

def Named (start part : UInt8 → Bool) (name : Bytes) : Prop :=
  name.head?.any start ∧ name.all part

instance (start part : UInt8 → Bool) (name : Bytes) : Decidable (Named start part name) :=
  inferInstanceAs (Decidable (_ ∧ _))

theorem readName_append {start part : UInt8 → Bool} {name : Bytes} (named : Named start part name)
    {next : UInt8} (stops : part next = false) (rest : Bytes) :
    readName start part (name ++ next :: rest) = some (name, next :: rest) := by
  have parts : ∀ c ∈ name, part c := List.all_eq_true.mp named.2
  have taken : (name ++ next :: rest).takeWhile part = name := by
    rw [List.takeWhile_append_of_pos parts, List.takeWhile_cons_of_neg (by simp [stops]),
      List.append_nil]
  have dropped : (name ++ next :: rest).dropWhile part = next :: rest := by
    rw [List.dropWhile_append_of_pos parts, List.dropWhile_cons_of_neg (by simp [stops])]
  obtain ⟨first, -⟩ := named
  cases name with
  | nil => simp at first
  | cons c name =>
    rw [List.cons_append] at taken dropped ⊢
    rw [readName, taken, dropped]
    exact if_pos (by simpa using first)

theorem skipBlanks_cons {c : UInt8} (shown : blank c = false) (rest : Bytes) :
    skipBlanks (c :: rest) = c :: rest :=
  List.dropWhile_cons_of_neg (by simp [shown])

theorem skipBlanks_name {start part : UInt8 → Bool} {name : Bytes} (named : Named start part name)
    (shown : ∀ c, blank c → start c = false) (rest : Bytes) :
    skipBlanks (name ++ rest) = name ++ rest := by
  obtain ⟨first, -⟩ := named
  cases name with
  | nil => simp at first
  | cons c name =>
    refine skipBlanks_cons (Bool.eq_false_iff.mpr fun hidden => ?_) _
    have absent := shown c hidden
    simp [absent] at first

theorem nameStart_of_blank (c : UInt8) (hidden : blank c) : nameStart c = false := by
  simp only [blank, Bool.or_eq_true, decide_eq_true_eq] at hidden
  rcases hidden with rfl | rfl <;> rfl

theorem labelStart_of_blank (c : UInt8) (hidden : blank c) : labelStart c = false :=
  (Bool.or_eq_false_iff.mp (nameStart_of_blank c hidden)).1

end Names

section Reading

theorem readLabels_label {label : Bytes} (named : Named labelStart labelPart label) (fuel : Nat)
    (rest : Bytes) :
    readLabels (fuel + 1) (label ++ 61 :: 34 :: rest) =
      match readValue rest with
      | none => none
      | some (value, s) =>
        match skipBlanks s with
        | 125 :: s => some ([(label, value)], s)
        | 44 :: s => (readLabels fuel s).map fun read => ((label, value) :: read.1, read.2)
        | _ => none := by
  have skipped := skipBlanks_name named labelStart_of_blank (61 :: 34 :: rest)
  have name : readName labelStart labelPart (label ++ 61 :: 34 :: rest) =
      some (label, 61 :: 34 :: rest) := readName_append named rfl (34 :: rest)
  obtain ⟨first, -⟩ := named
  cases label with
  | nil => simp at first
  | cons c label =>
    have brace : c ≠ 125 := by
      rintro rfl
      exact absurd first Bool.false_ne_true
    rw [List.cons_append] at skipped name ⊢
    rw [readLabels, skipped]
    simp only [brace, if_false, name, skipBlanks_cons (c := 61) rfl,
      skipBlanks_cons (c := 34) rfl]

theorem parseSample_name {V : Type} (number : Bytes → Option V) {name : Bytes}
    (metric : Named nameStart namePart name) (rest : Bytes) :
    parseSample number (name ++ 123 :: rest) = (readLabels (rest.length + 1) rest).bind
      fun read => readAmount number name read.1 read.2 := by
  have skipped := skipBlanks_name metric nameStart_of_blank (123 :: rest)
  have read : readName nameStart namePart (name ++ 123 :: rest) = some (name, 123 :: rest) :=
    readName_append metric rfl rest
  have brace : skipBlanks (123 :: rest) = 123 :: rest := skipBlanks_cons rfl rest
  unfold parseSample
  rw [skipped, read]
  simp only [Option.bind_eq_bind, Option.bind_some, brace, readBraces]

theorem readAmount_labels {V : Type} {number : Bytes → Option V} {name s : Bytes}
    {labels : List (Bytes × Bytes)} {sample : Sample V}
    (read : readAmount number name labels s = some sample) :
    sample.labels = labels ∧ ∀ label ∈ labels, Utf8 label.2 := by
  unfold readAmount at read
  obtain ⟨⟨⟩, valid, read⟩ := Option.bind_eq_some_iff.mp read
  obtain ⟨value, -, read⟩ := Option.bind_eq_some_iff.mp read
  obtain ⟨timestamp, -, read⟩ := Option.bind_eq_some_iff.mp read
  cases read
  exact ⟨rfl, (Option.guard_eq_some' _).mp valid⟩

/-- What is read of the first label of a sample. -/
theorem parseSample_label {V : Type} {number : Bytes → Option V} {name label rest : Bytes}
    (metric : Named nameStart namePart name) (named : Named labelStart labelPart label)
    {sample : Sample V}
    (parsed : parseSample number (name ++ 123 :: (label ++ 61 :: 34 :: rest)) = some sample) :
    ∃ value after more, readValue rest = some (value, after) ∧ Utf8 value ∧
      sample.labels = (label, value) :: more ∧
      ((skipBlanks after).head? = some 125 ∨ (skipBlanks after).head? = some 44) := by
  rw [parseSample_name number metric, readLabels_label named] at parsed
  obtain ⟨⟨labels, s⟩, braces, amount⟩ := Option.bind_eq_some_iff.mp parsed
  obtain ⟨same, utf8⟩ := readAmount_labels amount
  rw [same]
  dsimp only at utf8
  split at braces
  next => exact nomatch braces
  next value after inside =>
    split at braces
    next s closed =>
      cases braces
      exact ⟨value, after, [], inside, utf8 _ (List.mem_singleton_self _), rfl,
        .inl (by rw [closed]; rfl)⟩
    next s comma =>
      obtain ⟨⟨more, _⟩, -, same⟩ := Option.map_eq_some_iff.mp braces
      cases same
      exact ⟨value, after, more, inside, utf8 _ List.mem_cons_self, rfl, .inr (by rw [comma]; rfl)⟩
    next => exact nomatch braces

end Reading

section Writing

def writeLabel (label : Bytes × Bytes) : Bytes := label.1 ++ 61 :: 34 :: (escape label.2 ++ [34])

def writeLabels : List (Bytes × Bytes) → Bytes
  | [] => []
  | [label] => writeLabel label
  | label :: other :: rest => writeLabel label ++ 44 :: writeLabels (other :: rest)

def writeSample (name : Bytes) (labels : List (Bytes × Bytes)) (token : Bytes) : Bytes :=
  name ++ 123 :: (writeLabels labels ++ 125 :: 32 :: token)

theorem readLabels_write {labels : List (Bytes × Bytes)}
    (named : ∀ label ∈ labels, Named labelStart labelPart label.1) {fuel : Nat}
    (enough : labels.length < fuel) (rest : Bytes) :
    readLabels fuel (writeLabels labels ++ 125 :: rest) = some (labels, rest) := by
  obtain ⟨fuel, rfl⟩ := Nat.exists_eq_succ_of_ne_zero (Nat.ne_zero_of_lt enough)
  induction labels generalizing fuel with
  | nil =>
    rw [writeLabels, List.nil_append, readLabels, skipBlanks_cons rfl]
    rfl
  | cons label labels ih =>
    have first := named label List.mem_cons_self
    have others : ∀ other ∈ labels, Named labelStart labelPart other.1 :=
      fun other listed => named other (List.mem_cons_of_mem _ listed)
    cases labels with
    | nil =>
      simp only [writeLabels, writeLabel, List.append_assoc, List.cons_append, List.nil_append]
      rw [readLabels_label first, readValue_escape]
      simp only [skipBlanks_cons (c := 125) rfl]
    | cons next labels =>
      obtain ⟨fuel, rfl⟩ : ∃ more, fuel = more + 1 :=
        Nat.exists_eq_succ_of_ne_zero fun none => by simp [none] at enough
      have read := ih others fuel (Nat.lt_of_succ_lt_succ enough)
      simp only [writeLabels, writeLabel, List.append_assoc, List.cons_append,
        List.nil_append] at read ⊢
      rw [readLabels_label first, readValue_escape]
      simp only [skipBlanks_cons (c := 44) rfl, read, Option.map_some]

theorem length_writeLabels (labels : List (Bytes × Bytes)) :
    labels.length ≤ (writeLabels labels).length := by
  have each (label : Bytes × Bytes) : 1 ≤ (writeLabel label).length := by
    simp only [writeLabel, List.length_append, List.length_cons]
    omega
  induction labels with
  | nil => exact Nat.zero_le _
  | cons label labels ih =>
    cases labels with
    | nil => exact each label
    | cons next labels =>
      have first := each label
      simp only [writeLabels, List.length_append, List.length_cons] at ih ⊢
      omega

theorem readAmount_token {V : Type} {number : Bytes → Option V} {name token : Bytes}
    {labels : List (Bytes × Bytes)} {value : V} (valid : ∀ label ∈ labels, Utf8 label.2)
    (solid : ∀ c ∈ token, blank c = false) (amount : number token = some value) :
    readAmount number name labels (32 :: token) = some ⟨name, labels, value, none⟩ := by
  have shown : ∀ c ∈ token, !blank c := fun c listed => by rw [solid c listed]; rfl
  have behind : skipBlanks (32 :: token) = token := by
    change List.dropWhile blank token = token
    rw [List.dropWhile_eq_self_iff]
    intro some
    simp [solid _ (List.getElem_mem some)]
  have taken : token.takeWhile (fun c => !blank c) = token := List.takeWhile_eq_self_iff.mpr shown
  have dropped : token.dropWhile (fun c => !blank c) = [] := List.dropWhile_eq_nil_iff.mpr shown
  unfold readAmount
  simp only [behind, taken, dropped, amount]
  rw [(Option.guard_eq_some' ()).mpr valid]
  rfl

/-- A sample that was written with escapes is read back. -/
theorem parseSample_write {V : Type} {number : Bytes → Option V} {name : Bytes}
    {labels : List (Bytes × Bytes)} {token : Bytes} {value : V}
    (metric : Named nameStart namePart name)
    (named : ∀ label ∈ labels, Named labelStart labelPart label.1)
    (valid : ∀ label ∈ labels, Utf8 label.2) (solid : ∀ c ∈ token, blank c = false)
    (amount : number token = some value) :
    parseSample number (writeSample name labels token) = some ⟨name, labels, value, none⟩ := by
  have enough : labels.length < (writeLabels labels ++ 125 :: 32 :: token).length + 1 := by
    have most := length_writeLabels labels
    rw [List.length_append]
    omega
  rw [writeSample, parseSample_name number metric, readLabels_write named enough, Option.bind_some]
  exact readAmount_token valid solid amount

end Writing

section Numbers

theorem integer_digits {token : Bytes} (filled : token ≠ []) (digits : ∀ c ∈ token, isDigit c) :
    integer token = some (decimal token : Int) := by
  have sign {c : UInt8} (other : isDigit c = false) : token.head? ≠ some c := by
    intro first
    have digit := digits c (List.mem_of_mem_head? first)
    rw [other] at digit
    exact Bool.false_ne_true digit
  have minus := sign (c := 45) rfl
  have plus := sign (c := 43) rfl
  simp only [integer, minus, plus, or_self, if_false]
  exact if_pos ⟨filled, List.all_eq_true.mpr digits⟩

theorem integer_toString (n : Nat) : integer (text (toString n)) = some (n : Int) := by
  rw [integer_digits (toString_ne_nil n) fun c => isDigit_of_mem_toString, decimal_toString]

end Numbers

end LogMonitor.Library.Prometheus
