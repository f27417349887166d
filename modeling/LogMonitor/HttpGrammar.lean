import LogMonitor.HttpChunks

/-!
The request parser as a language: what it makes of a request that is written out
line by line, and which bytes it takes for a request at all. The text in front of
the empty line has lost its last line end, so a request line without any header
line behind it is one that the parser does not find.
-/

namespace LogMonitor.HttpGrammar
open Library.ByteString HttpParser HttpChunks

structure Field where
  name : Bytes
  value : Bytes
  ascii : ∀ c ∈ name, c < 128
  colonless : 58 ∉ name
  plain : Plain name ∧ Plain value
  trimmed : value.head? ≠ some 32

namespace Field

def line (field : Field) : Bytes := field.name ++ 58 :: 32 :: field.value

def key (field : Field) : Bytes := field.name.map toLower

theorem line_plain (field : Field) : field.line ≠ [] ∧ Plain field.line := by
  have plain := field.plain
  simp only [Plain] at plain
  simp [line, Plain, plain]

/-- A header line as the loop finds it, with or without its carriage return. -/
theorem addHeader_eq (field : Field) (headers : Bytes → Option Bytes) {line : Bytes}
    (trims : trimCr line = field.line) :
    addHeader headers line = .ok (Function.update headers field.key (some field.value)) := by
  have colon : find (text ":") field.line 0 = some field.name.length := by
    have found := find_single field.colonless [] (32 :: field.value)
    have single : text ":" = [58] := by decide
    rw [single]
    simpa [Field.line] using found
  have length : field.line.length = field.name.length + (field.value.length + 2) := by
    simp [Field.line]
  have name : field.line.take field.name.length = field.name := List.take_left
  have value : field.line.drop (field.name.length + 1) = 32 :: field.value := by
    rw [Field.line, List.append_cons, List.drop_left' (by simp)]
  have trimmed : (32 :: field.value).dropWhile (· = 32) = field.value := by
    have first := field.trimmed
    cases shape : field.value with
    | nil => rfl
    | cons c rest =>
      rw [shape, List.head?_cons, ne_eq, Option.some.injEq] at first
      simp [first]
  unfold addHeader
  dsimp only
  rw [trims, if_neg field.line_plain.1, colon]
  dsimp only
  rw [substr_ok (Nat.zero_le _), substrFrom_ok (by omega), List.drop_zero, name, value]
  simp only [bind, Except.bind, pure, Except.pure, trimmed]
  rfl

end Field

/-- A request with at least one header line. -/
structure WrittenRequest where
  method : Bytes
  path : Bytes
  version : Bytes
  fields : List Field
  body : Bytes
  line : Plain method ∧ Plain path ∧ Plain version
  words : 32 ∉ method ∧ 32 ∉ path
  some : fields ≠ []
  distinct : (fields.map Field.key).Nodup

namespace WrittenRequest

def requestLine (r : WrittenRequest) : Bytes := r.method ++ 32 :: (r.path ++ 32 :: r.version)

def bytes (r : WrittenRequest) : Bytes :=
  block (r.requestLine :: r.fields.map Field.line) ++ crlf ++ r.body

end WrittenRequest

theorem trimCr_of_not_mem {line : Bytes} (plain : 13 ∉ line) : trimCr line = line := by
  rw [trimCr, if_neg]
  intro last
  exact plain (List.mem_of_getLast? last)

section Loop

variable {line rest : Bytes} {headers : Bytes → Option Bytes}

theorem parseHeaders_last (filled : line ≠ []) (plain : 10 ∉ line) :
    parseHeaders line headers = addHeader headers line := by
  have newline : text "\n" = [10] := by decide
  have none : find (text "\n") line 0 = none := by
    rw [newline]
    exact find_single_none plain
  rw [parseHeaders, dif_neg filled, none]

theorem parseHeaders_cons (plain : 10 ∉ line) :
    parseHeaders (line ++ 10 :: rest) headers =
      (addHeader headers line).bind fun headers => parseHeaders rest headers := by
  have newline : text "\n" = [10] := by decide
  have lineEnd : find (text "\n") (line ++ 10 :: rest) 0 = some line.length := by
    have found := find_single plain [] rest
    rw [newline]
    simpa using found
  have behind : (line ++ 10 :: rest).drop (line.length + 1) = rest := by
    rw [List.append_cons, List.drop_left' (by simp)]
  have fits : line.length + 1 ≤ (line ++ 10 :: rest).length := by
    simp only [List.length_append, List.length_cons]
    omega
  rw [parseHeaders, dif_neg (by simp), lineEnd]
  dsimp only
  rw [substr_ok (Nat.zero_le _), List.drop_zero, List.take_left]
  dsimp only
  cases addHeader headers line with
  | error exception => rfl
  | ok headers =>
    dsimp only
    split
    next failed =>
      rw [substrFrom_ok fits] at failed
      cases failed
    next after read =>
      rw [substrFrom_ok fits, behind] at read
      obtain rfl := Except.ok.inj read
      rfl

end Loop

def entered (fields : List Field) (headers : Bytes → Option Bytes) : Bytes → Option Bytes :=
  fields.foldl (fun headers field => Function.update headers field.key (some field.value)) headers

theorem parseHeaders_fields {fields : List Field} (some : fields ≠ [])
    (headers : Bytes → Option Bytes) :
    parseHeaders (unended (fields.map Field.line)) headers = .ok (entered fields headers) := by
  induction fields generalizing headers with
  | nil => exact absurd rfl some
  | cons field fields ih =>
    obtain ⟨filled, returnless, lineless⟩ := field.line_plain
    by_cases last : fields = []
    · subst last
      rw [List.map_singleton, unended_single, parseHeaders_last filled lineless,
        field.addHeader_eq headers (trimCr_of_not_mem returnless)]
      rfl
    · have more : fields.map Field.line ≠ [] := by simpa using last
      have ended : 10 ∉ field.line ++ [13] := by simp [lineless]
      rw [List.map_cons, unended_cons more, parseHeaders_cons ended,
        field.addHeader_eq headers (trimCr_return _)]
      exact ih last _

theorem entered_eq {fields : List Field} (distinct : (fields.map Field.key).Nodup)
    (headers : Bytes → Option Bytes) (key : Bytes) :
    entered fields headers key =
      ((fields.find? fun field => field.key = key).map Field.value).or (headers key) := by
  induction fields generalizing headers with
  | nil => rfl
  | cons field fields ih =>
    obtain ⟨fresh, distinct⟩ := List.nodup_cons.mp distinct
    have step : entered (field :: fields) headers key =
        entered fields (Function.update headers field.key (some field.value)) key := rfl
    rw [step, ih distinct]
    by_cases same : field.key = key
    · have absent : fields.find? (fun field => field.key = key) = none := by
        rw [List.find?_eq_none]
        intro other listed matching
        have equal : other.key = key := by simpa using matching
        exact fresh (same ▸ equal ▸ List.mem_map_of_mem listed)
      rw [absent, List.find?_cons_of_pos (by simpa using same), ← same, Function.update_self]
      rfl
    · rw [List.find?_cons_of_neg (by simpa using same), Function.update_of_ne (Ne.symm same)]

/-- The parser gets back every part of a request that was written out, and the lookup finds each
header whatever the case of the letters. -/
theorem parse_bytes (r : WrittenRequest) :
    ∃ request, parse r.bytes = .ok (some request) ∧ request.method = r.method ∧
      request.path = r.path ∧ request.version = r.version ∧ request.body = r.body ∧
      (∀ key, request.headers key =
        (r.fields.find? fun field => field.key = key).map Field.value) ∧
      ∀ field ∈ r.fields, ∀ name : Bytes, name.map toLower = field.key →
        request.header name = some field.value := by
  have plain : ∀ line ∈ r.fields.map Field.line, line ≠ [] ∧ 13 ∉ line := by
    intro line listed
    obtain ⟨field, -, rfl⟩ := List.mem_map.mp listed
    exact ⟨field.line_plain.1, field.line_plain.2.1⟩
  have lines : r.fields.map Field.line ≠ [] := by simpa using r.some
  have parsed := parse_lines r.words r.line lines plain
    (parseHeaders_fields r.some fun _ => none) r.body
  have keyed (key : Bytes) : entered r.fields (fun _ => none) key =
      (r.fields.find? fun field => field.key = key).map Field.value := by
    rw [entered_eq r.distinct, Option.or_none]
  refine ⟨_, parsed, rfl, rfl, rfl, rfl, keyed, fun field listed name lowered => ?_⟩
  have found : r.fields.find? (fun other => other.key = field.key) = some field := by
    cases first : r.fields.find? fun other => other.key = field.key with
    | none =>
      have absent := List.find?_eq_none.mp first field listed
      simp at absent
    | some other =>
      have same : other.key = field.key := by simpa using List.find?_some first
      rw [List.inj_on_of_nodup_map r.distinct (List.mem_of_find?_eq_some first) listed same]
  rw [HttpRequest.header, lowered]
  change entered r.fields (fun _ => none) field.key = _
  rw [keyed, found]
  rfl

section Sample

def hostField : Field where
  name := text "Host"
  value := text "localhost:8080"
  ascii := by decide +kernel
  colonless := by decide
  plain := by
    unfold Plain
    decide
  trimmed := by decide

def keyField : Field where
  name := text "X-API-Key"
  value := text "k1"
  ascii := by decide +kernel
  colonless := by decide
  plain := by
    unfold Plain
    decide
  trimmed := by decide

theorem upload_line :
    Plain (text "POST") ∧ Plain (text "/ingest") ∧ Plain (text "HTTP/1.1") := by
  unfold Plain
  decide

theorem upload_words : 32 ∉ text "POST" ∧ 32 ∉ text "/ingest" := by decide

theorem upload_distinct : ([hostField, keyField].map Field.key).Nodup := by decide

/-- A log whose body has an empty line of its own. -/
def upload : WrittenRequest where
  method := text "POST"
  path := text "/ingest"
  version := text "HTTP/1.1"
  fields := [hostField, keyField]
  body := text "first\r\n\r\nsecond"
  line := upload_line
  words := upload_words
  some := List.cons_ne_nil hostField [keyField]
  distinct := upload_distinct

theorem parse_bytes_upload : ∃ request, parse upload.bytes = .ok (some request) ∧
    request.body = text "first\r\n\r\nsecond" ∧
    request.header (text "host") = some (text "localhost:8080") ∧
    request.header (text "x-api-key") = some (text "k1") := by
  obtain ⟨request, parsed, -, -, -, body, -, found⟩ := parse_bytes upload
  have host := found hostField (by simp [upload]) (text "host") (by decide)
  have key := found keyField (by simp [upload]) (text "x-api-key") (by decide)
  exact ⟨request, parsed, body, host, key⟩

end Sample

/-- The first empty line, after a line feed alone only if no carriage returns end one anywhere. -/
def HeadEnds (raw : Bytes) (pos : Nat) : Prop :=
  FirstAt (text "\r\n\r\n") raw pos ∨
    (∀ q, ¬text "\r\n\r\n" <+: raw.drop q) ∧ FirstAt (text "\n\n") raw pos

def firstWords (raw : Bytes) (pos : Nat) : Bytes := (raw.take pos).takeWhile (· ≠ 10)

/-- A request: an empty line, and a first line with at least two spaces before it. -/
def Grammatical (raw : Bytes) : Prop := ∃ pos, HeadEnds raw pos ∧ 2 ≤ (firstWords raw pos).count 32

/-- The parser comes to an end without an access outside the bytes, with a request exactly if they
are one. -/
def Recognises (raw : Bytes) : Prop :=
  ∃ result, parse raw = .ok result ∧ (result.isSome = true ↔ Grammatical raw)

/-- A first line with two spaces is not all there is before the empty line. -/
def MoreThanOneLine (raw : Bytes) : Prop :=
  ∀ pos, HeadEnds raw pos → 2 ≤ (firstWords raw pos).count 32 → 10 ∈ raw.take pos

theorem headerEnd_iff (raw : Bytes) (pos : Nat) :
    headerEnd raw = some pos ↔ HeadEnds raw pos := by
  have returns := @firstAt_iff (text "\r\n\r\n") raw (by decide)
  have feeds := @firstAt_iff (text "\n\n") raw (by decide)
  rw [headerEnd, HeadEnds, ← returns, ← feeds, ← (find_zero _ raw).2]
  cases find (text "\r\n\r\n") raw 0 <;> simp

theorem HeadEnds.unique {raw : Bytes} {pos other : Nat} (ends : HeadEnds raw pos)
    (also : HeadEnds raw other) : pos = other :=
  Option.some.inj
    (((headerEnd_iff raw pos).mpr ends).symm.trans ((headerEnd_iff raw other).mpr also))

theorem count_trimCr (line : Bytes) : (trimCr line).count 32 = line.count 32 := by
  unfold trimCr
  split
  next last =>
    obtain ⟨front, rfl⟩ := List.getLast?_eq_some_iff.mp last
    rw [List.dropLast_concat, List.count_append]
    rfl
  next => rfl

theorem parseRequestLine_isSome {requestLine : Bytes} {parts : Option (Bytes × Bytes × Bytes)}
    (read : parseRequestLine requestLine = .ok parts) :
    parts.isSome = true ↔ 2 ≤ requestLine.count 32 := by
  have space : text " " = [32] := by decide
  rw [parseRequestLine, space] at read
  cases first : find [32] requestLine 0 with
  | none =>
    rw [first] at read
    obtain rfl := Except.ok.inj read
    have absent := (find_single_eq_none_iff (Nat.zero_le _)).mp first
    rw [List.drop_zero] at absent
    rw [List.count_eq_zero_of_not_mem absent]
    simp
  | some sp1 =>
    have once := count_of_find_single first
    have inside : sp1 + 1 ≤ requestLine.length := (find_some first).2.2.1
    rw [List.drop_zero] at once
    rw [first] at read
    dsimp only at read
    cases second : find [32] requestLine (sp1 + 1) with
    | none =>
      rw [second] at read
      obtain rfl := Except.ok.inj read
      have absent := (find_single_eq_none_iff inside).mp second
      rw [once, List.count_eq_zero_of_not_mem absent]
      simp
    | some sp2 =>
      have twice := count_of_find_single second
      have low := (find_some second).1
      have fits : sp2 + 1 ≤ requestLine.length := (find_some second).2.2.1
      rw [second] at read
      dsimp only at read
      rw [substr_ok (Nat.zero_le _), substr_ok inside, substrFrom_ok fits] at read
      obtain rfl := Except.ok.inj read
      rw [once, twice]
      simp

theorem takeWhile_of_find {raw : Bytes} {lineEnd : Nat} (found : find [10] raw 0 = some lineEnd) :
    raw.takeWhile (· ≠ 10) = raw.take lineEnd := by
  obtain ⟨-, cut, before⟩ := find_single_some found
  rw [List.drop_zero, Nat.sub_zero] at cut before
  nth_rewrite 1 [cut]
  rw [List.takeWhile_append_of_pos fun c listed => by
    simpa using ne_of_mem_of_not_mem listed before]
  simp

/-- Behind the empty line the parser asks for a line feed and two spaces. -/
theorem parse_isSome (raw : Bytes) : ∃ result, parse raw = .ok result ∧
    (result.isSome = true ↔
      ∃ pos, HeadEnds raw pos ∧ 10 ∈ raw.take pos ∧ 2 ≤ (firstWords raw pos).count 32) := by
  have newline : text "\n" = [10] := by decide
  obtain ⟨result, parsed⟩ := parse_ok raw
  refine ⟨result, parsed, ?_⟩
  rw [parse, newline] at parsed
  cases ends : headerEnd raw with
  | none =>
    rw [ends] at parsed
    obtain rfl := Except.ok.inj parsed
    refine iff_of_false Bool.false_ne_true ?_
    rintro ⟨pos, here, -⟩
    rw [(headerEnd_iff raw pos).mpr here] at ends
    cases ends
  | some pos =>
    have here := (headerEnd_iff raw pos).mp ends
    have only : (∃ pos, HeadEnds raw pos ∧ 10 ∈ raw.take pos ∧ 2 ≤ (firstWords raw pos).count 32) ↔
        10 ∈ raw.take pos ∧ 2 ≤ (firstWords raw pos).count 32 := by
      constructor
      · rintro ⟨other, there, holds⟩
        obtain rfl := here.unique there
        exact holds
      · exact fun holds => ⟨pos, here, holds⟩
    rw [ends] at parsed
    dsimp only at parsed
    rw [only]
    cases first : find [10] (raw.take pos) 0 with
    | none =>
      rw [first] at parsed
      obtain rfl := Except.ok.inj parsed
      have absent := (find_single_eq_none_iff (Nat.zero_le _)).mp first
      refine iff_of_false Bool.false_ne_true fun holds => absent ?_
      rw [List.drop_zero]
      exact holds.1
    | some lineEnd =>
      have member : 10 ∈ raw.take pos := by
        by_contra absent
        rw [find_single_none absent] at first
        cases first
      have fits : lineEnd + 1 ≤ (raw.take pos).length := (find_some first).2.2.1
      rw [first] at parsed
      simp only [substr_ok (Nat.zero_le _), substrFrom_ok fits, List.drop_zero] at parsed
      obtain ⟨parts, read⟩ := parseRequestLine_ok (trimCr ((raw.take pos).take lineEnd))
      obtain ⟨headers, fields⟩ :=
        parseHeaders_ok ((raw.take pos).drop (lineEnd + 1)) (fun _ => none)
      obtain ⟨body, rest⟩ := parseBody_ok raw pos
      have words := parseRequestLine_isSome read
      rw [count_trimCr, ← takeWhile_of_find first] at words
      simp only [bind, Except.bind, pure, Except.pure, read, fields, rest] at parsed
      rw [firstWords, ← words, and_iff_right member]
      cases parts with
      | none =>
        obtain rfl := Except.ok.inj parsed
        rfl
      | some parts =>
        obtain rfl := Except.ok.inj parsed
        exact iff_of_true rfl rfl

/-- The parser recognises its grammar on exactly the bytes whose first line does not end at the
empty line, if it has two spaces. -/
theorem recognises_iff (raw : Bytes) : Recognises raw ↔ MoreThanOneLine raw := by
  obtain ⟨result, parsed, accepted⟩ := parse_isSome raw
  constructor
  · rintro ⟨other, read, grammar⟩ pos ends words
    obtain rfl := Except.ok.inj (parsed.symm.trans read)
    obtain ⟨also, there, line, -⟩ := accepted.mp (grammar.mpr ⟨pos, ends, words⟩)
    rwa [ends.unique there]
  · intro more
    refine ⟨result, parsed, accepted.trans ⟨?_, ?_⟩⟩
    · rintro ⟨pos, ends, -, words⟩
      exact ⟨pos, ends, words⟩
    · rintro ⟨pos, ends, words⟩
      exact ⟨pos, ends, more pos ends words, words⟩

/-- A request line alone is a request that the parser does not find. -/
theorem bareRequest_refused : ¬Recognises (text "GET /status HTTP/1.1\r\n\r\n") := by
  rintro ⟨result, parsed, accepted⟩
  have refused : parse (text "GET /status HTTP/1.1\r\n\r\n") = .ok none := rfl
  obtain rfl := Except.ok.inj (refused.symm.trans parsed)
  have ends : HeadEnds (text "GET /status HTTP/1.1\r\n\r\n") 20 :=
    (headerEnd_iff _ _).mp (by decide)
  exact nomatch accepted.mpr ⟨20, ends, by decide⟩

end LogMonitor.HttpGrammar
