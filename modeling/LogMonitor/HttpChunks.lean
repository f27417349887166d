import LogMonitor.NetworkIngester

/-!
Requests that arrive in pieces: what the ingester's reading loop makes of a
framed request, for every way TCP may split its bytes. The loop looks for the
length field by itself, in all it has read, and parses what it has when it takes
the request to be complete.
-/

namespace LogMonitor.HttpChunks
open Library Library.ByteString HttpParser NetworkIngester

def Plain (bytes : Bytes) : Prop := 13 ∉ bytes ∧ 10 ∉ bytes

/-- A header line that announces a body of this length: the name in any case, and any number of
spaces and zeros before the digits. -/
def Announces (length : Nat) (line : Bytes) : Prop :=
  ∃ name spaces zeros, name.map toLower = text "content-length" ∧
    line = name ++ 58 :: (List.replicate spaces 32 ++
      (List.replicate zeros 48 ++ toDecimal length))

structure FramedRequest where
  method : Bytes
  path : Bytes
  version : Bytes
  fields : List Bytes
  body : Bytes
  line : Plain method ∧ Plain path ∧ Plain version
  words : 32 ∉ method ∧ 32 ∉ path
  plain : ∀ field ∈ fields, field ≠ [] ∧ Plain field
  announced : ∃ field ∈ fields, Announces body.length field

def crlf : Bytes := [13, 10]

def block (lines : List Bytes) : Bytes := lines.flatMap (· ++ crlf)

namespace FramedRequest

def requestLine (r : FramedRequest) : Bytes :=
  r.method ++ 32 :: (r.path ++ 32 :: r.version)

def head (r : FramedRequest) : Bytes := block (r.requestLine :: r.fields) ++ crlf

def bytes (r : FramedRequest) : Bytes := r.head ++ r.body

theorem lines_plain (r : FramedRequest) :
    ∀ line ∈ r.requestLine :: r.fields, line ≠ [] ∧ 13 ∉ line := by
  intro line listed
  rcases List.mem_cons.mp listed with rfl | field
  · have := r.line
    simp only [Plain] at this
    refine ⟨by simp [requestLine], ?_⟩
    simp [requestLine, this]
  · obtain ⟨filled, plain⟩ := r.plain line field
    exact ⟨filled, plain.1⟩

end FramedRequest

theorem block_cons (line : Bytes) (lines : List Bytes) :
    block (line :: lines) = line ++ 13 :: 10 :: block lines := by
  simp [block, crlf]

theorem scan_blank {lines : List Bytes} (some : lines ≠ [])
    (plain : ∀ line ∈ lines, line ≠ [] ∧ 13 ∉ line) (rest : Bytes) (base : Nat) :
    scan [13, 10, 13, 10] (block lines ++ 13 :: 10 :: rest) base =
      Option.some (base + ((block lines).length - 2)) := by
  induction lines generalizing base with
  | nil => exact absurd rfl some
  | cons line lines ih =>
    rw [block_cons, List.append_assoc, scan_append (plain line (List.mem_cons_self ..)).2]
    cases lines with
    | nil =>
      have here : [13, 10, 13, 10] <+: 13 :: 10 :: ([] ++ 13 :: 10 :: rest) :=
        List.prefix_append [13, 10, 13, 10] rest
      simp only [block, List.flatMap_nil, List.cons_append]
      rw [scan, if_pos here]
      simp
    | cons next lines =>
      obtain ⟨filled, returnless⟩ := plain next (by simp)
      obtain ⟨c, more, rfl⟩ := List.exists_cons_of_ne_nil filled
      have other : 13 ≠ c := List.ne_of_not_mem_cons returnless
      have first : ¬[13, 10, 13, 10] <+:
          13 :: 10 :: (block ((c :: more) :: lines) ++ 13 :: 10 :: rest) := by
        simp [block_cons, List.cons_prefix_cons, other]
      have second : ¬[13, 10, 13, 10] <+:
          10 :: (block ((c :: more) :: lines) ++ 13 :: 10 :: rest) := by
        simp [List.cons_prefix_cons]
      rw [List.cons_append, List.cons_append, scan, if_neg first, scan, if_neg second,
        ih (by simp) fun line listed => plain line (List.mem_cons_of_mem _ listed)]
      congr 1
      have long : 2 ≤ (block ((c :: more) :: lines)).length := by simp [block_cons]; omega
      simp only [List.length_append, List.length_cons]
      omega

theorem blank_eq : text "\r\n\r\n" = [13, 10, 13, 10] := by decide

theorem trimCr_return (line : Bytes) : trimCr (line ++ [13]) = line := by
  rw [trimCr, if_pos (by simp), List.dropLast_concat]

section Lines

variable {method path version : Bytes} {line : Bytes} {lines : List Bytes}

theorem find_block (some : lines ≠ []) (plain : ∀ line ∈ lines, line ≠ [] ∧ 13 ∉ line)
    (rest : Bytes) : find (text "\r\n\r\n") (block lines ++ crlf ++ rest) 0 =
      Option.some ((block lines).length - 2) := by
  have found := scan_blank some plain rest 0
  rw [find, if_pos (Nat.zero_le _), List.drop_zero, blank_eq, List.append_assoc, ← Nat.zero_add (_ - 2)]
  exact found

theorem parseRequestLine_words (words : 32 ∉ method ∧ 32 ∉ path) :
    parseRequestLine (method ++ 32 :: (path ++ 32 :: version)) =
      .ok (some (method, path, version)) := by
  generalize whole : method ++ 32 :: (path ++ 32 :: version) = requestLine
  have space : text " " = [32] := by decide
  have first : find (text " ") requestLine 0 = some method.length := by
    have found := find_single words.1 [] (path ++ 32 :: version)
    rw [space, ← whole]
    simpa using found
  have front : requestLine = (method ++ [32]) ++ (path ++ 32 :: version) := by
    simp [← whole]
  have second : find (text " ") requestLine (method.length + 1) =
      some (method.length + 1 + path.length) := by
    have found := find_single words.2 (method ++ [32]) version
    rw [space, front]
    simpa using found
  have length : requestLine.length = method.length + 1 + (path.length + 1 + version.length) := by
    simp [← whole]
    omega
  have methodEq : requestLine.take method.length = method := by
    rw [← whole, List.take_left]
  have pathEq : (requestLine.drop (method.length + 1)).take path.length = path := by
    rw [front, List.drop_left' (by simp), List.take_left]
  have versionEq : requestLine.drop (method.length + 1 + path.length + 1) = version := by
    have front : requestLine = (method ++ 32 :: path ++ [32]) ++ version := by
      simp [← whole]
    rw [front, List.drop_left' (by simp; omega)]
  rw [parseRequestLine, first]
  dsimp only
  rw [second]
  dsimp only
  rw [substr_ok (Nat.zero_le _), substr_ok (by omega), substrFrom_ok (by omega)]
  have size : method.length + 1 + path.length - method.length - 1 = path.length := by omega
  rw [List.drop_zero, methodEq, size, pathEq, versionEq]
  rfl

theorem block_long (some : lines ≠ []) : 2 ≤ (block lines).length := by
  obtain ⟨first, more, rfl⟩ := List.exists_cons_of_ne_nil some
  rw [block_cons, List.length_append, List.length_cons, List.length_cons]
  omega

def unended (lines : List Bytes) : Bytes := (block lines).take ((block lines).length - 2)

theorem unended_single (line : Bytes) : unended [line] = line := by
  simp [unended, block, crlf]

theorem unended_cons (some : lines ≠ []) :
    unended (line :: lines) = (line ++ [13]) ++ 10 :: unended lines := by
  have long := block_long some
  have front : block (line :: lines) = (line ++ [13, 10]) ++ block lines := by
    simp [block_cons]
  have length : (block (line :: lines)).length - 2 =
      (line ++ [13, 10]).length + ((block lines).length - 2) := by
    rw [front]
    simp only [List.length_append, List.length_cons, List.length_nil]
    omega
  rw [unended, length, front, List.take_length_add_append, unended]
  simp

theorem take_block (lines : List Bytes) (rest : Bytes) :
    (block lines ++ crlf ++ rest).take ((block lines).length - 2) = unended lines := by
  rw [List.append_assoc, List.take_append_of_le_length (Nat.sub_le ..), unended]

theorem parseBody_block (some : lines ≠ []) (plain : ∀ line ∈ lines, line ≠ [] ∧ 13 ∉ line)
    (rest : Bytes) :
    parseBody (block lines ++ crlf ++ rest) ((block lines).length - 2) = .ok rest := by
  have long := block_long some
  obtain ⟨-, ⟨after, here⟩, fits, -⟩ := find_some (find_block some plain rest)
  have present : (block lines ++ crlf ++ rest)[(block lines).length - 2]? = Option.some 13 := by
    rw [← List.head?_drop, ← here, blank_eq]
    rfl
  have start : bodyStart (block lines ++ crlf ++ rest) ((block lines).length - 2) =
      (block lines ++ crlf).length := by
    rw [bodyStart, if_pos present, List.length_append, crlf, List.length_cons, List.length_singleton]
    omega
  rw [parseBody, start]
  by_cases more : (block lines ++ crlf).length < (block lines ++ crlf ++ rest).length
  · rw [if_pos more, substrFrom_ok more.le, List.drop_left]
  · have none : rest = [] := by
      have total : (block lines ++ crlf ++ rest).length = (block lines ++ crlf).length + rest.length :=
        List.length_append
      exact List.length_eq_zero_iff.mp (by omega)
    rw [if_neg more, none]

/-- The parser on lines that end with a carriage return and a line feed, behind which anything may
follow. -/
theorem parse_lines (words : 32 ∉ method ∧ 32 ∉ path)
    (ends : Plain method ∧ Plain path ∧ Plain version) (some : lines ≠ [])
    (plain : ∀ line ∈ lines, line ≠ [] ∧ 13 ∉ line) {headers : Bytes → Option Bytes}
    (read : parseHeaders (unended lines) (fun _ => none) = .ok headers) (rest : Bytes) :
    parse (block ((method ++ 32 :: (path ++ 32 :: version)) :: lines) ++ crlf ++ rest) =
      .ok (Option.some ⟨method, path, version, headers, rest⟩) := by
  have newline : text "\n" = [10] := by decide
  have lineless : 10 ∉ (method ++ 32 :: (path ++ 32 :: version)) ++ [13] := by
    simp only [Plain] at ends
    simp [ends]
  have returnless : 13 ∉ method ++ 32 :: (path ++ 32 :: version) := by
    simp only [Plain] at ends
    simp [ends]
  have splits : parseRequestLine (method ++ 32 :: (path ++ 32 :: version)) = _ :=
    parseRequestLine_words words
  have filled : method ++ 32 :: (path ++ 32 :: version) ≠ [] := by simp
  generalize method ++ 32 :: (path ++ 32 :: version) = requestLine at *
  have allPlain : ∀ line ∈ requestLine :: lines, line ≠ [] ∧ 13 ∉ line := by
    intro line listed
    rcases List.mem_cons.mp listed with rfl | field
    · exact ⟨filled, returnless⟩
    · exact plain line field
  have found := find_single lineless [] (unended lines)
  have lineEnd : find (text "\n") ((requestLine ++ [13]) ++ 10 :: unended lines) 0 =
      Option.some (requestLine.length + 1) := by
    rw [newline]
    simpa using found
  have firstLine : ((requestLine ++ [13]) ++ 10 :: unended lines).take (requestLine.length + 1) =
      requestLine ++ [13] := List.take_left' (by simp)
  have behind : ((requestLine ++ [13]) ++ 10 :: unended lines).drop (requestLine.length + 1 + 1) =
      unended lines := by
    rw [List.append_cons, List.drop_left' (by simp)]
  have inside : requestLine.length + 1 + 1 ≤
      ((requestLine ++ [13]) ++ 10 :: unended lines).length := by
    simp only [List.length_append, List.length_cons, List.length_nil]
    omega
  rw [parse, headerEnd, find_block (List.cons_ne_nil _ _) allPlain]
  dsimp only
  rw [take_block, unended_cons some, lineEnd]
  dsimp only
  rw [substr_ok (Nat.zero_le _), List.drop_zero, firstLine]
  simp only [bind, Except.bind, pure, Except.pure, trimCr_return, splits, substrFrom_ok inside,
    behind, read, parseBody_block (List.cons_ne_nil _ _) allPlain]

end Lines

theorem head_length (r : FramedRequest) :
    r.head.length = (block (r.requestLine :: r.fields)).length + 2 := by
  simp [FramedRequest.head, crlf]

theorem head_long (r : FramedRequest) : 4 ≤ r.head.length := by
  have long := block_long (List.cons_ne_nil r.requestLine r.fields)
  rw [head_length]
  omega

theorem find_blank (r : FramedRequest) (rest : Bytes) :
    find (text "\r\n\r\n") (r.head ++ rest) 0 = some (r.head.length - 4) := by
  have found := find_block (List.cons_ne_nil _ _) r.lines_plain rest
  rwa [head_length]

/-- The parser makes the same of the head, whatever follows, and takes what follows as the body. -/
theorem parse_head (r : FramedRequest) : ∃ headers, ∀ rest,
    parse (r.head ++ rest) = .ok (some ⟨r.method, r.path, r.version, headers, rest⟩) := by
  obtain ⟨field, listed, -⟩ := r.announced
  obtain ⟨headers, read⟩ := parseHeaders_ok (unended r.fields) (fun _ => none)
  refine ⟨headers, fun rest => ?_⟩
  exact parse_lines r.words r.line (List.ne_nil_of_mem listed)
    (fun field listed => r.lines_plain field (List.mem_cons_of_mem _ listed)) read rest

/-- The reading loop on a client that closes its side after these chunks, or waits for the answer;
then the loop may wait for ever for more. -/
def receiveFrom (closes : Bool) : Nat → List Bytes → Bytes → Option (Except Exception Bytes)
  | 0, _, raw => some (.ok raw)
  | _ + 1, [], raw => if closes then some (.ok raw) else none
  | rounds + 1, chunk :: chunks, raw =>
    match requestComplete (raw ++ chunk) with
    | .error exception => some (.error exception)
    | .ok true => some (.ok (raw ++ chunk))
    | .ok false => receiveFrom closes rounds chunks (raw ++ chunk)

def handled (closes : Bool) (chunks : List Bytes) :
    Option (Except Exception (Option HttpRequest)) :=
  (receiveFrom closes 100 chunks []).map (· >>= parse)

theorem receiveFrom_closes (rounds : Nat) {chunks : List Bytes}
    (filled : ∀ chunk ∈ chunks, chunk ≠ []) (raw : Bytes) :
    receiveFrom true rounds chunks raw = some (receive rounds chunks raw) := by
  induction rounds generalizing chunks raw with
  | zero => rfl
  | succ rounds ih =>
    cases chunks with
    | nil => rfl
    | cons chunk chunks =>
      rw [receiveFrom, receive, if_neg (filled chunk (List.mem_cons_self ..))]
      cases requestComplete (raw ++ chunk) with
      | error exception => rfl
      | ok complete =>
        cases complete with
        | true => rfl
        | false => exact ih (fun other listed => filled other (List.mem_cons_of_mem _ listed)) _

theorem receiveFrom_cons (closes : Bool) (rounds : Nat) (chunk : Bytes) (chunks : List Bytes)
    (raw : Bytes) :
    (BareToken (raw ++ chunk) ∧
      receiveFrom closes (rounds + 1) (chunk :: chunks) raw = some (.error .outOfRange)) ∨
    (¬BareToken (raw ++ chunk) ∧ Complete (raw ++ chunk) ∧
      receiveFrom closes (rounds + 1) (chunk :: chunks) raw = some (.ok (raw ++ chunk))) ∨
    (¬BareToken (raw ++ chunk) ∧ ¬Complete (raw ++ chunk) ∧
      receiveFrom closes (rounds + 1) (chunk :: chunks) raw =
        receiveFrom closes rounds chunks (raw ++ chunk)) := by
  obtain ⟨bareCase, wholeCase⟩ := requestComplete_spec (raw ++ chunk)
  by_cases bare : BareToken (raw ++ chunk)
  · exact .inl ⟨bare, by rw [receiveFrom, bareCase bare]⟩
  · obtain ⟨complete, check, decided⟩ := wholeCase bare
    cases complete with
    | true => exact .inr (.inl ⟨bare, decided.mp rfl, by rw [receiveFrom, check]⟩)
    | false =>
      have more : ¬Complete (raw ++ chunk) := fun done => by simpa using decided.mpr done
      exact .inr (.inr ⟨bare, more, by rw [receiveFrom, check]⟩)

/-- The loop ends with all the bytes, or at a chunk after which it takes the request for
complete. -/
theorem receiveFrom_ok {closes : Bool} {rounds : Nat} {chunks : List Bytes} {raw read : Bytes}
    (few : chunks.length ≤ rounds)
    (ended : receiveFrom closes rounds chunks raw = some (.ok read)) :
    read = raw ++ chunks.flatten ∨ ∃ first rest, chunks = first ++ rest ∧ rest ≠ [] ∧
      read = raw ++ first.flatten ∧ Complete read := by
  induction rounds generalizing chunks raw with
  | zero =>
    obtain rfl := List.length_eq_zero_iff.mp (Nat.le_zero.mp few)
    obtain rfl := Except.ok.inj (Option.some.inj ended)
    exact .inl (List.append_nil _).symm
  | succ rounds ih =>
    cases chunks with
    | nil =>
      rw [receiveFrom] at ended
      split at ended
      · obtain rfl := Except.ok.inj (Option.some.inj ended)
        exact .inl (List.append_nil _).symm
      · exact nomatch ended
    | cons chunk chunks =>
      rcases receiveFrom_cons closes rounds chunk chunks raw with
        ⟨-, threw⟩ | ⟨-, complete, stops⟩ | ⟨-, -, goesOn⟩
      · rw [threw] at ended
        exact nomatch ended
      · rw [stops] at ended
        obtain rfl := Except.ok.inj (Option.some.inj ended)
        by_cases last : chunks = []
        · exact .inl (by simp [last])
        · exact .inr ⟨[chunk], chunks, rfl, last, by simp, complete⟩
      · rw [goesOn] at ended
        rcases ih (Nat.le_of_succ_le_succ few) ended with all | ⟨first, rest, rfl, more, part⟩
        · exact .inl (by simpa using all)
        · exact .inr ⟨chunk :: first, rest, rfl, more, by simpa using part⟩

structure Reaches (closes : Bool) (rounds : Nat) (chunks : List Bytes) (raw : Bytes) : Prop where
  onward : ∀ first rest, chunks = first ++ rest → first ≠ [] → rest ≠ [] →
    ¬Complete (raw ++ first.flatten)
  whole : ∀ first rest, chunks = first ++ rest → first ≠ [] → ¬BareToken (raw ++ first.flatten)
  ends : closes = true ∨ chunks.length = rounds ∨
    chunks ≠ [] ∧ Complete (raw ++ chunks.flatten)

theorem cuts_cons {α : Type} {holds : List α → List α → Prop} {head : α} {tail : List α} :
    (∀ first rest, head :: tail = first ++ rest → first ≠ [] → holds first rest) ↔
      holds [head] tail ∧
        ∀ first rest, tail = first ++ rest → first ≠ [] → holds (head :: first) rest := by
  constructor
  · intro all
    refine ⟨all [head] tail rfl (by simp), fun first rest cut _ => ?_⟩
    exact all (head :: first) rest (by rw [cut]; rfl) (by simp)
  · rintro ⟨single, later⟩ first rest cut some
    cases first with
    | nil => exact absurd rfl some
    | cons _ first =>
      obtain ⟨rfl, behind⟩ := List.cons.inj cut
      by_cases none : first = []
      · subst none
        have same : tail = rest := behind
        subst same
        exact single
      · exact later first rest behind none

/-- What the first chunk does to the boundaries. -/
theorem reaches_cons {closes : Bool} {rounds : Nat} {chunk : Bytes} {chunks : List Bytes}
    {raw : Bytes} : Reaches closes (rounds + 1) (chunk :: chunks) raw ↔
      ¬BareToken (raw ++ chunk) ∧ (Complete (raw ++ chunk) ∧ chunks = [] ∨
        ¬Complete (raw ++ chunk) ∧ Reaches closes rounds chunks (raw ++ chunk)) := by
  have joined (first : List Bytes) :
      raw ++ (chunk :: first).flatten = raw ++ chunk ++ first.flatten := by
    rw [List.flatten_cons, List.append_assoc]
  have alone : raw ++ [chunk].flatten = raw ++ chunk := by simp
  have onward := @cuts_cons _ (fun first rest => rest ≠ [] → ¬Complete (raw ++ first.flatten))
    chunk chunks
  have whole := @cuts_cons _ (fun first _ => ¬BareToken (raw ++ first.flatten)) chunk chunks
  simp only [joined, List.flatten_nil, List.append_nil] at onward whole
  constructor
  · intro reaches
    obtain ⟨single, later⟩ := onward.mp reaches.onward
    obtain ⟨bare, laterWhole⟩ := whole.mp reaches.whole
    refine ⟨bare, ?_⟩
    by_cases complete : Complete (raw ++ chunk)
    · refine .inl ⟨complete, ?_⟩
      by_contra more
      exact single more complete
    · refine .inr ⟨complete, later, laterWhole, ?_⟩
      rcases reaches.ends with closed | full | ⟨-, done⟩
      · exact .inl closed
      · exact .inr (.inl (Nat.succ.inj full))
      · rw [joined] at done
        refine .inr (.inr ⟨?_, done⟩)
        rintro rfl
        exact complete (by simpa using done)
  · rintro ⟨bare, ⟨complete, rfl⟩ | ⟨more, reaches⟩⟩
    · have nowhere {first rest : List Bytes} (cut : [] = first ++ rest) : first = [] :=
        (List.append_eq_nil_iff.mp cut.symm).1
      refine ⟨onward.mpr ⟨fun some => absurd rfl some, fun first rest cut some => ?_⟩,
        whole.mpr ⟨bare, fun first rest cut some => ?_⟩, .inr (.inr ⟨by simp, by rwa [alone]⟩)⟩
      · exact absurd (nowhere cut) some
      · exact absurd (nowhere cut) some
    · refine ⟨onward.mpr ⟨fun _ => more, reaches.onward⟩, whole.mpr ⟨bare, reaches.whole⟩, ?_⟩
      rcases reaches.ends with closed | full | ⟨-, done⟩
      · exact .inl closed
      · exact .inr (.inl (congrArg Nat.succ full))
      · exact .inr (.inr ⟨by simp, by rwa [joined]⟩)

theorem reaches_nil {closes : Bool} {rounds : Nat} {raw : Bytes} :
    Reaches closes rounds [] raw ↔ closes = true ∨ rounds = 0 := by
  constructor
  · intro reaches
    rcases reaches.ends with closed | full | ⟨some, -⟩
    · exact .inl closed
    · exact .inr full.symm
    · exact absurd rfl some
  · intro ends
    refine ⟨fun first rest cut some => ?_, fun first rest cut some => ?_, ?_⟩
    · exact absurd (List.append_eq_nil_iff.mp cut.symm).1 some
    · exact absurd (List.append_eq_nil_iff.mp cut.symm).1 some
    · exact ends.imp_right fun none => .inl none.symm

theorem receiveFrom_iff {closes : Bool} {rounds : Nat} {chunks : List Bytes} {raw : Bytes}
    (few : chunks.length ≤ rounds) (filled : ∀ chunk ∈ chunks, chunk ≠ []) :
    receiveFrom closes rounds chunks raw = some (.ok (raw ++ chunks.flatten)) ↔
      Reaches closes rounds chunks raw := by
  induction rounds generalizing chunks raw with
  | zero =>
    obtain rfl := List.length_eq_zero_iff.mp (Nat.le_zero.mp few)
    simp [receiveFrom, reaches_nil]
  | succ rounds ih =>
    cases chunks with
    | nil => simp [receiveFrom, reaches_nil]
    | cons chunk chunks =>
      rw [reaches_cons]
      rcases receiveFrom_cons closes rounds chunk chunks raw with
        ⟨bare, threw⟩ | ⟨bare, complete, stops⟩ | ⟨bare, more, goesOn⟩
      · rw [threw]
        simp [bare]
      · rw [stops, Option.some.injEq, Except.ok.injEq, List.flatten_cons, ← List.append_assoc,
          List.self_eq_append_right]
        have later : ∀ other ∈ chunks, other ≠ [] := fun other listed =>
          filled other (List.mem_cons_of_mem _ listed)
        have nothing : chunks.flatten = [] ↔ chunks = [] := by
          refine ⟨fun empty => ?_, fun none => by rw [none]; rfl⟩
          by_contra some
          obtain ⟨first, rest, rfl⟩ := List.exists_cons_of_ne_nil some
          exact later first (List.mem_cons_self ..) (List.append_eq_nil_iff.mp empty).1
        simp [bare, complete, nothing]
      · rw [goesOn, List.flatten_cons, ← List.append_assoc,
          ih (Nat.le_of_succ_le_succ few) fun other listed =>
            filled other (List.mem_cons_of_mem _ listed)]
        simp [bare, more]

def FirstAt (needle bytes : Bytes) (pos : Nat) : Prop :=
  needle <+: bytes.drop pos ∧ ∀ q < pos, ¬needle <+: bytes.drop q

/-- Where the loop takes the length field to be, wherever that is: in a line of the head or in the
body, and perhaps in the middle of another name. -/
def FieldAt (bytes : Bytes) (pos : Nat) : Prop :=
  FirstAt (text "Content-Length:") bytes pos ∨
    (∀ q, ¬text "Content-Length:" <+: bytes.drop q) ∧ FirstAt (text "content-length:") bytes pos

def firstLine (bytes : Bytes) : Bytes :=
  match find crlf bytes 0 with
  | some lineEnd => bytes.take lineEnd
  | none => bytes

/-- The number the loop reads in the field at `pos`: it passes over one byte behind the colon,
even where the line ends there, and takes what is no number for zero. -/
def numberAt (bytes : Bytes) (pos : Nat) : Nat :=
  let value := bytes.drop (pos + 16)
  match stoull (if crlf <+: bytes.drop (pos + 15) then value else firstLine value) with
  | .ok number => number
  | .error _ => 0

def Unfinished (head bytes : Bytes) : Prop :=
  ∃ pos, FieldAt bytes pos ∧ pos + 16 ≤ bytes.length ∧
    bytes.length < (head.length + numberAt bytes pos) % 2 ^ 64

def EndsWithField (bytes : Bytes) : Prop := ∃ pos, FieldAt bytes pos ∧ pos + 15 = bytes.length

theorem firstAt_iff {needle bytes : Bytes} (some : needle ≠ []) (pos : Nat) :
    find needle bytes 0 = Option.some pos ↔ FirstAt needle bytes pos := by
  rw [(find_zero needle bytes).1 pos]
  constructor
  · rintro ⟨here, -, before⟩
    exact ⟨here, before⟩
  · rintro ⟨here, before⟩
    refine ⟨here, ?_, before⟩
    by_contra outside
    rw [List.drop_eq_nil_of_le (by omega)] at here
    exact some (List.prefix_nil.mp here)

theorem lengthField_iff (bytes : Bytes) (pos : Nat) :
    lengthField bytes = some pos ↔ FieldAt bytes pos := by
  have upper := @firstAt_iff (text "Content-Length:") bytes (by decide)
  have lower := @firstAt_iff (text "content-length:") bytes (by decide)
  rw [lengthField, FieldAt, ← upper, ← lower, ← (find_zero _ bytes).2]
  cases find (text "Content-Length:") bytes 0 <;> simp

theorem FieldAt.token {bytes : Bytes} {pos : Nat} (field : FieldAt bytes pos) :
    ∃ token : Bytes, token.length = 15 ∧ 13 ∉ token ∧
      bytes.drop pos = token ++ bytes.drop (pos + 15) := by
  have cut {token : Bytes} (length : token.length = 15) (here : token <+: bytes.drop pos) :
      bytes.drop pos = token ++ bytes.drop (pos + 15) := by
    obtain ⟨rest, shape⟩ := here
    rw [← List.drop_drop, ← shape, ← length, List.drop_left]
  rcases field with ⟨here, -⟩ | ⟨-, here, -⟩
  · exact ⟨_, by decide, by decide, cut (by decide) here⟩
  · exact ⟨_, by decide, by decide, cut (by decide) here⟩

/-- The slice the loop takes is the rest of the line. -/
theorem value_eq {bytes : Bytes} {pos : Nat} (field : FieldAt bytes pos)
    (inside : pos + 16 ≤ bytes.length) (small : bytes.length < 2 ^ 63) :
    (bytes.drop (pos + 16)).take (fieldSize bytes pos) =
      if crlf <+: bytes.drop (pos + 15) then bytes.drop (pos + 16)
      else firstLine (bytes.drop (pos + 16)) := by
  obtain ⟨token, length, returnless, shape⟩ := field.token
  have ends : text "\r\n" = crlf := by decide
  have found : find (text "\r\n") bytes pos = if crlf <+: bytes.drop (pos + 15) then
      some (pos + 15) else (find crlf (bytes.drop (pos + 16)) 0).map (· + (pos + 16)) := by
    rw [ends, find, if_pos (by omega), shape, crlf, scan_append returnless, length]
    have behind : bytes.drop (pos + 15) = bytes[pos + 15] :: bytes.drop (pos + 16) := by
      rw [List.drop_eq_getElem_cons]
    nth_rewrite 1 [behind]
    rw [scan, ← behind]
    by_cases now : [13, 10] <+: bytes.drop (pos + 15)
    · rw [if_pos now, if_pos now]
    · rw [if_neg now, if_neg now, scan_base, find, if_pos (Nat.zero_le _), List.drop_zero]
  have rest : (bytes.drop (pos + 16)).length = bytes.length - (pos + 16) := List.length_drop
  rw [fieldSize, found]
  by_cases now : crlf <+: bytes.drop (pos + 15)
  · have past : sizeSub (pos + 15) pos = 15 := by rw [sizeSub_of_le (by omega) (by omega)]; omega
    have wraps : sizeSub 15 16 = 2 ^ 64 - 1 := rfl
    rw [if_pos now, if_pos now, Option.getD_some, past, wraps, List.take_of_length_le (by omega)]
  · rw [if_neg now, if_neg now, firstLine]
    cases line : find crlf (bytes.drop (pos + 16)) 0 with
    | none =>
      have past : sizeSub npos pos = npos - pos := sizeSub_of_le (by decide) (by unfold npos; omega)
      have all : sizeSub (npos - pos) 16 = npos - pos - 16 :=
        sizeSub_of_le (by unfold npos; omega) (by unfold npos; omega)
      rw [Option.map_none, Option.getD_none, past, all, List.take_of_length_le]
      unfold npos
      omega
    | some lineEnd =>
      have within := (find_some line).2.2.1
      rw [rest] at within
      have past : sizeSub (lineEnd + (pos + 16)) pos = lineEnd + 16 := by
        rw [sizeSub_of_le (by omega) (by omega)]
        omega
      have size : sizeSub (lineEnd + 16) 16 = lineEnd := by
        rw [sizeSub_of_le (by omega) (by omega)]
        omega
      rw [Option.map_some, Option.getD_some, past, size]

theorem contentLength_eq {bytes : Bytes} {pos : Nat} (field : FieldAt bytes pos)
    (inside : pos + 16 ≤ bytes.length) (small : bytes.length < 2 ^ 63) :
    contentLength ((bytes.drop (pos + 16)).take (fieldSize bytes pos)) = numberAt bytes pos := by
  rw [value_eq field inside small]
  rfl

section Boundaries

variable {r : FramedRequest}

theorem bareToken_iff (rest : Bytes) :
    BareToken (r.head ++ rest) ↔ EndsWithField (r.head ++ rest) := by
  simp only [BareToken, find_blank, Option.isSome_some, true_and, EndsWithField, lengthField_iff]

/-- Behind the head the loop goes on if and only if fewer bytes are there than announced. -/
theorem complete_iff {rest : Bytes} (small : (r.head ++ rest).length < 2 ^ 63)
    (whole : ¬BareToken (r.head ++ rest)) :
    Complete (r.head ++ rest) ↔ ¬Unfinished r.head (r.head ++ rest) := by
  have four : r.head.length - 4 + 4 = r.head.length := Nat.sub_add_cancel (head_long r)
  have inside {pos : Nat} (field : FieldAt (r.head ++ rest) pos) :
      pos + 16 ≤ (r.head ++ rest).length := by
    have fits := lengthField_fits ((lengthField_iff _ _).mpr field)
    by_contra outside
    exact whole ((bareToken_iff rest).mpr ⟨pos, field, by omega⟩)
  constructor
  · rintro ⟨headerEnd, found, enough⟩ ⟨pos, field, _, fewer⟩
    obtain rfl := Option.some.inj ((find_blank r rest).symm.trans found)
    have most := enough pos ((lengthField_iff _ _).mpr field)
    rw [contentLength_eq field (inside field) small, four] at most
    omega
  · intro finished
    refine ⟨_, find_blank r rest, fun pos found => ?_⟩
    have field := (lengthField_iff _ _).mp found
    rw [contentLength_eq field (inside field) small, four]
    by_contra fewer
    exact finished ⟨pos, field, inside field, Nat.lt_of_not_le fewer⟩

theorem find_blank_early {part more : Bytes} (cut : r.bytes = part ++ more)
    (early : part.length < r.head.length) : find (text "\r\n\r\n") part 0 = none := by
  cases found : find (text "\r\n\r\n") part 0 with
  | none => rfl
  | some pos =>
    obtain ⟨-, here, fits, -⟩ := find_some found
    obtain ⟨-, -, -, first⟩ := find_some (find_blank r r.body)
    have length : (text "\r\n\r\n").length = 4 := by decide
    rw [length] at fits
    have there : text "\r\n\r\n" <+: (r.head ++ r.body).drop pos := by
      change _ <+: r.bytes.drop pos
      rw [cut, List.drop_append_of_le_length (by omega)]
      exact here.trans (List.prefix_append ..)
    exact absurd there (first pos (Nat.zero_le pos) (by omega))

theorem not_complete_early {part more : Bytes} (cut : r.bytes = part ++ more)
    (early : part.length < r.head.length) : ¬Complete part := by
  rintro ⟨headerEnd, found, -⟩
  rw [find_blank_early cut early] at found
  exact nomatch found

theorem not_bareToken_early {part more : Bytes} (cut : r.bytes = part ++ more)
    (early : part.length < r.head.length) : ¬BareToken part := by
  rintro ⟨found, -⟩
  rw [find_blank_early cut early] at found
  exact nomatch found

/-- What has arrived of the request has its head, or ends before the head does. -/
theorem part_cases {part more : Bytes} (cut : r.bytes = part ++ more) :
    part.length < r.head.length ∨ ∃ rest, part = r.head ++ rest := by
  by_cases early : part.length < r.head.length
  · exact .inl early
  · right
    have prefixed : r.head <+: part :=
      List.prefix_of_prefix_length_le ⟨r.body, rfl⟩ ⟨more, cut.symm⟩ (Nat.le_of_not_lt early)
    obtain ⟨rest, shape⟩ := prefixed
    exact ⟨rest, shape.symm⟩

end Boundaries

/-- At every boundary behind the head the request looks unfinished; the whole of it does not end
with the name of the field, and looks finished if the client waits for the answer and the
loop has rounds left. -/
structure Recognised (r : FramedRequest) (closes : Bool) (chunks : List Bytes) : Prop where
  onward : ∀ first rest, chunks = first ++ rest → rest ≠ [] →
    r.head.length ≤ first.flatten.length → Unfinished r.head first.flatten
  whole : ¬EndsWithField r.bytes
  ends : closes = true ∨ chunks.length = 100 ∨ ¬Unfinished r.head r.bytes

theorem Unfinished.not_ends {head bytes : Bytes} (unfinished : Unfinished head bytes) :
    ¬EndsWithField bytes := by
  obtain ⟨pos, field, inside, -⟩ := unfinished
  rintro ⟨last, same, ends⟩
  have found := (lengthField_iff bytes pos).mpr field
  rw [(lengthField_iff bytes last).mpr same] at found
  obtain rfl := Option.some.inj found
  omega

theorem flatten_length {chunks : List Bytes} {most : Nat}
    (short : ∀ chunk ∈ chunks, chunk.length ≤ most) :
    chunks.flatten.length ≤ chunks.length * most := by
  induction chunks with
  | nil => exact Nat.zero_le _
  | cons chunk chunks ih =>
    have first := short chunk (List.mem_cons_self ..)
    have rest := ih fun other listed => short other (List.mem_cons_of_mem _ listed)
    rw [List.flatten_cons, List.length_append, List.length_cons, Nat.succ_mul]
    omega

section Handled

variable {r : FramedRequest} {closes : Bool} {chunks : List Bytes}

theorem handled_eq_iff (few : chunks.length ≤ 100) (split : chunks.flatten = r.bytes) :
    handled closes chunks = some (parse r.bytes) ↔
      receiveFrom closes 100 chunks [] = some (.ok r.bytes) := by
  obtain ⟨headers, parsed⟩ := parse_head r
  constructor
  · intro same
    rw [handled] at same
    cases read : receiveFrom closes 100 chunks [] with
    | none =>
      rw [read] at same
      exact nomatch same
    | some result =>
      rw [read] at same
      cases result with
      | error exception =>
        rw [FramedRequest.bytes, parsed] at same
        exact nomatch same
      | ok part =>
        have parses : parse part = parse r.bytes := Option.some.inj same
        rcases receiveFrom_ok few read with all | ⟨first, rest, cut, -, shape, complete⟩
        · rw [all, List.nil_append, split]
        · rw [List.nil_append] at shape
          have parts : r.bytes = part ++ rest.flatten := by
            rw [← split, cut, List.flatten_append, shape]
          rcases part_cases parts with early | ⟨body, behind⟩
          · exact absurd complete (not_complete_early parts early)
          · rw [behind, FramedRequest.bytes, parsed, parsed] at parses
            simp only [Except.ok.injEq, Option.some.injEq, HttpRequest.mk.injEq, true_and] at parses
            rw [behind, parses]
            rfl
  · intro read
    rw [handled, read]
    rfl

theorem reaches_iff (filled : ∀ chunk ∈ chunks, chunk ≠ [] ∧ chunk.length ≤ 4096)
    (few : chunks.length ≤ 100) (split : chunks.flatten = r.bytes) :
    Reaches closes 100 chunks [] ↔ Recognised r closes chunks := by
  have small : r.bytes.length < 2 ^ 63 := by
    have most := flatten_length fun chunk listed => (filled chunk listed).2
    rw [← split]
    omega
  have parts {first rest : List Bytes} (cut : chunks = first ++ rest) :
      r.bytes = first.flatten ++ rest.flatten := by
    rw [← split, cut, List.flatten_append]
  have partSmall {first rest : List Bytes} (cut : chunks = first ++ rest) :
      first.flatten.length < 2 ^ 63 := by
    rw [parts cut, List.length_append] at small
    omega
  have long := head_long r
  have some : chunks ≠ [] := by
    rintro rfl
    have length := congrArg List.length split
    rw [FramedRequest.bytes, List.length_append, List.flatten_nil, List.length_nil] at length
    omega
  have all : BareToken r.bytes ↔ EndsWithField r.bytes := bareToken_iff r.body
  constructor
  · intro reaches
    have whole : ¬EndsWithField r.bytes := by
      have token := reaches.whole chunks [] (List.append_nil _).symm some
      rwa [List.nil_append, split, all] at token
    refine ⟨fun first rest cut more behind => ?_, whole, ?_⟩
    · have begun : first ≠ [] := by
        rintro rfl
        rw [List.flatten_nil, List.length_nil] at behind
        omega
      have onward := reaches.onward first rest cut begun more
      have token := reaches.whole first rest cut begun
      have fits := partSmall cut
      rw [List.nil_append] at onward token
      rcases part_cases (parts cut) with early | ⟨body, shape⟩
      · exact absurd early (Nat.not_lt.mpr behind)
      · rw [shape] at onward token fits ⊢
        exact not_not.mp (mt (complete_iff fits token).mpr onward)
    · refine reaches.ends.imp_right fun ends => ends.imp_right fun done => ?_
      rw [List.nil_append, split] at done
      exact (complete_iff small (mt all.mp whole)).mp done.2
  · intro recognised
    have onward {first rest : List Bytes} (cut : chunks = first ++ rest) (more : rest ≠ []) :
        ¬Complete first.flatten ∧ ¬BareToken first.flatten := by
      rcases part_cases (parts cut) with early | ⟨body, shape⟩
      · exact ⟨not_complete_early (parts cut) early, not_bareToken_early (parts cut) early⟩
      · have fits := partSmall cut
        have behind : r.head.length ≤ first.flatten.length := by
          rw [shape, List.length_append]
          exact Nat.le_add_right ..
        have unfinished := recognised.onward first rest cut more behind
        rw [shape] at fits unfinished ⊢
        have token : ¬BareToken (r.head ++ body) := mt (bareToken_iff body).mp unfinished.not_ends
        exact ⟨fun done => (complete_iff fits token).mp done unfinished, token⟩
    refine ⟨fun first rest cut _ more => (onward cut more).1, fun first rest cut _ => ?_, ?_⟩
    · by_cases last : rest = []
      · rw [last, List.append_nil] at cut
        rw [← cut, List.nil_append, split, all]
        exact recognised.whole
      · exact (onward cut last).2
    · refine recognised.ends.imp_right fun ends => ends.imp_right fun finished => ?_
      rw [List.nil_append, split]
      exact ⟨some, (complete_iff small (mt all.mp recognised.whole)).mpr finished⟩

end Handled

section Spelled

variable {r : FramedRequest} {pos : Nat}

theorem firstAt_append {needle bytes : Bytes} (first : FirstAt needle bytes pos)
    (some : needle ≠ []) (rest : Bytes) : FirstAt needle (bytes ++ rest) pos := by
  have fits := first.1.length_le
  have positive := List.length_pos_iff.mpr some
  rw [List.length_drop] at fits
  have same {q : Nat} (low : q ≤ pos) :
      needle <+: (bytes ++ rest).drop q ↔ needle <+: bytes.drop q := by
    rw [List.drop_append_of_le_length (by omega)]
    refine ⟨fun there => ?_, fun there => there.trans (List.prefix_append ..)⟩
    exact List.prefix_of_prefix_length_le there (List.prefix_append ..)
      (by rw [List.length_drop]; omega)
  exact ⟨(same (Nat.le_refl _)).mpr first.1,
    fun q low there => first.2 q low ((same low.le).mp there)⟩

theorem firstLine_append {bytes : Bytes} (ends : crlf <+: bytes.drop (bytes.length - 2))
    (rest : Bytes) : firstLine (bytes ++ rest) = firstLine bytes := by
  have crlf_ne : crlf ≠ [] := by decide
  cases line : find crlf bytes 0 with
  | none => exact absurd ends ((find_zero crlf bytes).2.mp line _)
  | some lineEnd =>
    have further := (firstAt_iff crlf_ne lineEnd).mpr
      (firstAt_append ((firstAt_iff crlf_ne lineEnd).mp line) crlf_ne rest)
    have fits := (find_some line).2.2.1
    rw [firstLine, firstLine, line, further]
    exact List.take_append_of_le_length (by omega)

theorem head_end (r : FramedRequest) : r.head.drop (r.head.length - 4) = [13, 10, 13, 10] := by
  obtain ⟨-, here, -⟩ := find_some (find_blank r [])
  rw [List.append_nil, blank_eq] at here
  refine (here.eq_of_length ?_).symm
  have long := head_long r
  rw [List.length_drop, List.length_cons, List.length_cons, List.length_cons, List.length_cons,
    List.length_nil]
  omega

theorem value_inside (spaced : r.head[pos + 15]? = some 32) : pos + 16 + 4 ≤ r.head.length := by
  have inside := (List.getElem?_eq_some_iff.mp spaced).1
  by_contra late
  have place : r.head[pos + 15]? = [13, 10, 13, 10][pos + 15 - (r.head.length - 4)]? := by
    rw [← head_end r, List.getElem?_drop]
    congr 1
    omega
  rw [spaced] at place
  have listed := List.mem_of_getElem? place.symm
  exact absurd listed (by decide)

theorem numberAt_append (spaced : r.head[pos + 15]? = some 32) (rest : Bytes) :
    numberAt (r.head ++ rest) pos = numberAt r.head pos := by
  have inside := value_inside spaced
  have here : r.head.drop (pos + 15) = 32 :: r.head.drop (pos + 16) := by
    obtain ⟨within, same⟩ := List.getElem?_eq_some_iff.mp spaced
    rw [List.drop_eq_getElem_cons within, same]
  have apart (more : Bytes) : ¬crlf <+: 32 :: more := by
    simp [crlf, List.cons_prefix_cons]
  have ends : crlf <+: (r.head.drop (pos + 16)).drop ((r.head.drop (pos + 16)).length - 2) := by
    have last : r.head.drop (r.head.length - 2) = crlf := by
      have tail := congrArg (List.drop 2) (head_end r)
      rw [List.drop_drop] at tail
      have same : r.head.length - 4 + 2 = r.head.length - 2 := by omega
      rwa [same] at tail
    rw [List.drop_drop, List.length_drop]
    have same : pos + 16 + (r.head.length - (pos + 16) - 2) = r.head.length - 2 := by omega
    rw [same, last]
  rw [numberAt, numberAt, List.drop_append_of_le_length (by omega),
    List.drop_append_of_le_length (by omega), here, List.cons_append, if_neg (apart _),
    if_neg (apart _), firstLine_append ends]

/-- A request whose field is spelled as the loop spells it, before any other that it takes for the
field and with a space behind the colon, is recognised however it is split. -/
theorem recognised_of_spelled (spelled : FirstAt (text "Content-Length:") r.head pos)
    (spaced : r.head[pos + 15]? = some 32) (number : numberAt r.head pos = r.body.length)
    (small : r.bytes.length < 2 ^ 63) (closes : Bool) {chunks : List Bytes}
    (filled : ∀ chunk ∈ chunks, chunk ≠ []) (split : chunks.flatten = r.bytes) :
    Recognised r closes chunks := by
  have inside := value_inside spaced
  have field (rest : Bytes) : FieldAt (r.head ++ rest) pos :=
    .inl (firstAt_append spelled (by decide) rest)
  have only {rest : Bytes} {other : Nat} (there : FieldAt (r.head ++ rest) other) :
      other = pos := by
    have found := (lengthField_iff _ _).mpr there
    rw [(lengthField_iff _ _).mpr (field rest)] at found
    exact (Option.some.inj found).symm
  rw [FramedRequest.bytes, List.length_append] at small
  refine ⟨fun first rest cut more behind => ?_, fun ⟨last, there, ends⟩ => ?_,
    .inr (.inr fun ⟨other, there, _, fewer⟩ => ?_)⟩
  · have parts : r.bytes = first.flatten ++ rest.flatten := by
      rw [← split, cut, List.flatten_append]
    rcases part_cases parts with early | ⟨body, shape⟩
    · exact absurd early (Nat.not_lt.mpr behind)
    · obtain ⟨next, later, rfl⟩ := List.exists_cons_of_ne_nil more
      have some := List.length_pos_iff.mpr (filled next (by rw [cut]; simp))
      have lengths := congrArg List.length parts
      rw [shape, FramedRequest.bytes, List.flatten_cons] at lengths
      simp only [List.length_append] at lengths
      rw [shape]
      refine ⟨pos, field body, ?_, ?_⟩
      · rw [List.length_append]
        omega
      · rw [numberAt_append spaced, number, List.length_append]
        omega
  · obtain rfl := only there
    rw [FramedRequest.bytes, List.length_append] at ends
    omega
  · obtain rfl := only there
    rw [FramedRequest.bytes, numberAt_append spaced, number, List.length_append] at fewer
    omega

end Spelled

/-- The handler parses what the parser makes of the whole request if and only if its own look for
the length field takes no boundary for the end. -/
theorem handled_iff (r : FramedRequest) (closes : Bool) {chunks : List Bytes}
    (filled : ∀ chunk ∈ chunks, chunk ≠ [] ∧ chunk.length ≤ 4096) (few : chunks.length ≤ 100)
    (split : chunks.flatten = r.bytes) :
    handled closes chunks = some (parse r.bytes) ↔ Recognised r closes chunks := by
  have each : ∀ chunk ∈ chunks, chunk ≠ [] := fun chunk listed => (filled chunk listed).1
  have reaches := @receiveFrom_iff closes 100 chunks [] few each
  rw [List.nil_append, split] at reaches
  rw [handled_eq_iff few split, reaches, reaches_iff filled few split]

def postRequest (field : Bytes) (plain : field ≠ [] ∧ 13 ∉ field ∧ 10 ∉ field)
    (announced : Announces 2 field) : FramedRequest where
  method := text "POST"
  path := text "/ingest"
  version := text "HTTP/1.1"
  fields := [field]
  body := text "\x7b\x7d"
  line := ⟨⟨by decide, by decide⟩, ⟨by decide, by decide⟩, by decide, by decide⟩
  words := ⟨by decide, by decide⟩
  plain := fun line listed => by rwa [List.mem_singleton.mp listed]
  announced := ⟨field, List.mem_singleton.mpr rfl, announced⟩

theorem handled_iff_spelled :
    let r := postRequest (text "Content-Length: 2") (by decide)
      ⟨text "Content-Length", 1, 0, by decide, by decide⟩
    handled false [r.bytes.take 9, (r.bytes.drop 9).take 35, [123], [125]] =
      some (parse r.bytes) := by
  intro r
  refine (handled_iff r false (by decide) (by decide) (by decide)).mpr ?_
  exact @recognised_of_spelled r 23 ⟨by decide, by decide⟩ (by decide) (by decide) (by decide)
    false _ (by decide) (by decide)

/-- The field in capitals is one the parser knows and the loop does not: the body is lost. -/
theorem capitals_lose_body :
    let r := postRequest (text "CONTENT-LENGTH: 2") (by decide)
      ⟨text "CONTENT-LENGTH", 1, 0, by decide, by decide⟩
    r.bytes.length ≤ 4096 ∧ handled true [r.head, r.body] ≠ some (parse r.bytes) := by
  intro r
  have read : receiveFrom true 100 [r.head, r.body] [] = some (.ok r.head) := by decide
  refine ⟨by decide, fun same => ?_⟩
  have all := (handled_eq_iff (by decide) (by simp [FramedRequest.bytes])).mp same
  rw [read] at all
  exact absurd all (by decide)

end LogMonitor.HttpChunks
