import Sangtachi.Control.RequestParser
import Mathlib.Data.List.Dedup
import Mathlib.Data.List.TakeWhile

/-! # What the request parser accepts

The grammar of a request, the checks in their documented order, and that reading a stream in pieces
comes to the same as judging it whole. -/
namespace Sangtachi.Control.Http

open Sangtachi.Lines

variable {loads : Text → Option Parsed} {stream buf : Bytes} {r : Reader} {head : Head} {eof : Bool}

/-! ## The pieces do not matter -/

/-- The head of a whole stream, when it ends or is too long. -/
def streamHead (stream : Bytes) : Option Head :=
  match find HEAD_END (stream.take MAX_HEADER_BYTES) with
  | some last => some ⟨stream.take (last + 4), stream.drop (last + 4), false⟩
  | none =>
    if MAX_HEADER_BYTES ≤ stream.length then some ⟨stream.take MAX_HEADER_BYTES, [], true⟩ else none

/-- How the reader stops behind the last byte. -/
def unfinished (eof : Bool) : Stop := if eof then .closed else .waiting

def judgeStream (loads : Text → Option Parsed) (stream : Bytes) (eof : Bool) :
    Except Stop Service.Request :=
  match streamHead stream with
  | none => .error (unfinished eof)
  | some head =>
    match judgeHead head with
    | .error e => .error (.refused e)
    | .ok (op, length) =>
      if head.rest.length < length then .error (unfinished eof)
      else
        match parseBody loads (head.rest.take length) with
        | .error e => .error (.refused e)
        | .ok value => .ok ⟨op, value⟩

theorem read_empty {n : ℕ} (hn : n ≠ 0) (h : r.rest = []) :
    r.read n = if r.eof then .ok ([], r) else .error .waiting := by
  unfold Reader.read
  rw [if_neg hn, if_pos h]

theorem read_some {n : ℕ} (hn : n ≠ 0) (h : r.rest ≠ []) :
    ∃ chunk r', r.read n = .ok (chunk, r') ∧ chunk ≠ [] ∧ r.rest = chunk ++ r'.rest ∧
      chunk.length ≤ n ∧
      r'.eof = r.eof := by
  have hpositive := List.length_pos_iff.mpr h
  unfold Reader.read
  rw [if_neg hn, if_neg h]
  refine ⟨_, _, rfl, ?_, (List.take_append_drop _ _).symm, ?_, rfl⟩
  · intro hempty
    have hlength := congrArg List.length hempty
    rw [List.length_take, List.length_nil] at hlength
    omega
  · rw [List.length_take]
    omega

theorem streamHead_of_find {last : ℕ}
    (h : find HEAD_END (stream.take MAX_HEADER_BYTES) = some last) :
    streamHead stream = some ⟨stream.take (last + 4), stream.drop (last + 4), false⟩ := by
  unfold streamHead
  rw [h]

theorem streamHead_of_none (h : find HEAD_END (stream.take MAX_HEADER_BYTES) = none) :
    streamHead stream =
      if MAX_HEADER_BYTES ≤ stream.length then
        some ⟨stream.take MAX_HEADER_BYTES, [], true⟩ else none := by
  unfold streamHead
  rw [h]

theorem readHead_eq (rounds : ℕ) (buf : Bytes) (r : Reader) (hbuf : buf.length ≤ MAX_HEADER_BYTES)
    (hrounds : MAX_HEADER_BYTES < rounds + buf.length) :
    match streamHead (buf ++ r.rest) with
    | none => readHead rounds buf r = .error (unfinished r.eof)
    | some head => ∃ read r', readHead rounds buf r = .ok (⟨head.head, read, head.tooLong⟩, r') ∧
        (head.tooLong = false → read ++ r'.rest = head.rest) ∧ r'.eof = r.eof := by
  induction rounds generalizing buf r with
  | zero => omega
  | succ rounds ih =>
    unfold readHead
    cases hfind : find HEAD_END buf with
    | some last =>
      have hlength := find_length_le hfind
      have hfour : HEAD_END.length = 4 := rfl
      have hstream : find HEAD_END ((buf ++ r.rest).take MAX_HEADER_BYTES) = some last := by
        rw [List.take_append, List.take_of_length_le hbuf]
        exact find_append hfind _
      rw [streamHead_of_find hstream]
      dsimp only
      refine ⟨buf.drop (last + 4), r, ?_, fun _ => ?_, rfl⟩
      · rw [List.take_append_of_le_length (by omega)]
      · rw [List.drop_append_of_le_length (by omega)]
    | none =>
      dsimp only
      by_cases hfull : MAX_HEADER_BYTES ≤ buf.length
      · rw [if_pos hfull]
        have htake : (buf ++ r.rest).take MAX_HEADER_BYTES = buf := by
          rw [List.take_append_of_le_length hfull, List.take_of_length_le hbuf]
        rw [streamHead_of_none (by rw [htake, hfind]),
          if_pos (by rw [List.length_append]; omega), htake]
        exact ⟨[], r, rfl, fun h => Bool.noConfusion h, rfl⟩
      · rw [if_neg hfull]
        have hroom : MAX_HEADER_BYTES - buf.length ≠ 0 := by omega
        by_cases hrest : r.rest = []
        · rw [read_empty hroom hrest, hrest, List.append_nil]
          have htake : buf.take MAX_HEADER_BYTES = buf := List.take_of_length_le hbuf
          rw [streamHead_of_none (by rw [htake, hfind]), if_neg hfull]
          unfold unfinished
          cases r.eof <;> rfl
        · obtain ⟨chunk, r', hread, hchunk, hparts, hfits, heof⟩ := read_some hroom hrest
          have hlong := List.length_pos_iff.mpr hchunk
          have hnext := ih (buf ++ chunk) r' (by rw [List.length_append]; omega)
            (by rw [List.length_append]; omega)
          rw [hread, hparts, ← List.append_assoc]
          dsimp only
          rw [if_neg hchunk]
          rwa [heof] at hnext

theorem judgeHead_tooLong (h : head.tooLong = true) {op : Text} {length : ℕ} :
    judgeHead head ≠ .ok (op, length) := by
  intro hok
  unfold judgeHead at hok
  cases hfind : find CRLF head.head with
  | none => rw [hfind] at hok; cases hok
  | some lineEnd =>
    rw [hfind] at hok
    dsimp only at hok
    cases hline : checkRequestLine (head.head.take lineEnd) with
    | error e => rw [hline] at hok; cases hok
    | ok op' =>
      rw [hline] at hok
      dsimp only at hok
      rw [if_pos h] at hok
      cases hok

theorem readRequest_eq (r : Reader) : readRequest loads r = judgeStream loads r.rest r.eof := by
  have hhead :=
    readHead_eq (MAX_HEADER_BYTES + 1) [] r (Nat.zero_le _) (by rw [List.length_nil]; omega)
  rw [List.nil_append] at hhead
  unfold readRequest judgeStream
  cases hstream : streamHead r.rest with
  | none =>
    rw [hstream] at hhead
    dsimp only at hhead ⊢
    rw [hhead]
  | some head =>
    rw [hstream] at hhead
    dsimp only at hhead ⊢
    obtain ⟨read, r', hread, hrest, heof⟩ := hhead
    have hjudge : judgeHead ⟨head.head, read, head.tooLong⟩ = judgeHead head := rfl
    rw [hread]
    dsimp only
    rw [hjudge]
    cases hverdict : judgeHead head with
    | error e => rfl
    | ok verdict =>
      obtain ⟨op, length⟩ := verdict
      have hunder : head.tooLong = false := by
        rcases Bool.eq_false_or_eq_true head.tooLong with hover | hunder
        · exact absurd hverdict (judgeHead_tooLong hover)
        · exact hunder
      have hparts := hrest hunder
      dsimp only
      rw [List.length_take, ← hparts, List.length_append]
      unfold Reader.readExactly
      by_cases hread : length ≤ read.length
      · have htake : (read ++ r'.rest).take length = read.take length :=
          List.take_append_of_le_length hread
        rw [if_neg (by omega), if_neg (by omega)]
        exact htake ▸ rfl
      · rw [if_pos (by omega), Nat.min_eq_right (by omega)]
        by_cases hmore : length - read.length ≤ r'.rest.length
        · have htake : (read ++ r'.rest).take length = read.take length ++
            r'.rest.take (length - read.length) :=
            List.take_append
          rw [if_pos hmore, if_neg (by omega)]
          exact htake ▸ rfl
        · have hshort : read.length + r'.rest.length < length := by omega
          rw [if_neg hmore, heof, if_pos hshort]
          unfold unfinished
          cases r.eof <;> rfl

/-! ## The request line -/

/-- `([!-~]+) ([!-~]+) HTTP/1\.1` -/
structure RequestLine (line method target : Bytes) : Prop where
  parts : line = method ++ SP :: (target ++ ascii " HTTP/1.1")
  method_ne : method ≠ []
  target_ne : target ≠ []
  method_visible : ∀ c ∈ method, isVisible c = true
  target_visible : ∀ c ∈ target, isVisible c = true

/-- The target starts with `/`, does not end with it, and has no `%`. -/
def TargetOk (target : Bytes) : Prop :=
  target.head? = some 47 ∧ target.getLast? ≠ some 47 ∧ 37 ∉ target

def LineOk (line : Bytes) : Prop :=
  ∃ method target, RequestLine line method target ∧ TargetOk target

def requestLine (op : String) : Bytes :=
  ascii "POST" ++ SP :: (ascii "/v1/" ++ ascii op ++ ascii " HTTP/1.1")

variable {line method target : Bytes}

theorem isVisible_blank : isVisible SP = false := rfl

theorem RequestLine.takeWhile (h : RequestLine line method target) :
    line.takeWhile isVisible = method := by
  rw [h.parts, List.takeWhile_append_of_pos h.method_visible, List.takeWhile_cons, isVisible_blank]
  exact List.append_nil method

theorem matchRequestLine_eq_some_iff :
    matchRequestLine line = some (method, target) ↔ RequestLine line method target := by
  constructor
  · intro h
    unfold matchRequestLine at h
    dsimp only at h
    cases hdrop : line.dropWhile isVisible with
    | nil => rw [hdrop] at h; cases h
    | cons c rest =>
      rw [hdrop] at h
      dsimp only at h
      by_cases hparts : line.takeWhile isVisible ≠ [] ∧ c = SP ∧ rest.takeWhile isVisible ≠ [] ∧
          rest.dropWhile isVisible = ascii " HTTP/1.1"
      · rw [if_pos hparts] at h
        cases h
        obtain ⟨hmethod, rfl, htarget, hversion⟩ := hparts
        refine ⟨?_, hmethod, htarget, fun c hc => List.mem_takeWhile_imp hc,
          fun c hc => List.mem_takeWhile_imp hc⟩
        rw [← hversion, List.takeWhile_append_dropWhile, ← hdrop, List.takeWhile_append_dropWhile]
      · rw [if_neg hparts] at h
        cases h
  · intro h
    have hversion : (ascii " HTTP/1.1").takeWhile isVisible = [] ∧
        (ascii " HTTP/1.1").dropWhile isVisible = ascii " HTTP/1.1" := by decide
    have hdrop : line.dropWhile isVisible = SP :: (target ++ ascii " HTTP/1.1") := by
      rw [h.parts, List.dropWhile_append_of_pos h.method_visible, List.dropWhile_cons,
        isVisible_blank]
      rfl
    have htarget : (target ++ ascii " HTTP/1.1").takeWhile isVisible = target := by
      rw [List.takeWhile_append_of_pos h.target_visible, hversion.1, List.append_nil]
    have hrest : (target ++ ascii " HTTP/1.1").dropWhile isVisible = ascii " HTTP/1.1" := by
      rw [List.dropWhile_append_of_pos h.target_visible, hversion.2]
    unfold matchRequestLine
    rw [hdrop, h.takeWhile]
    dsimp only
    rw [htarget, hrest, if_pos ⟨h.method_ne, rfl, h.target_ne, rfl⟩]

set_option maxRecDepth 2048 in
theorem RequestLine.post (h : RequestLine line method target) (hpost : ascii "POST " <+: line) :
    method = ascii "POST" := by
  obtain ⟨rest, hrest⟩ := hpost
  have htake : line.takeWhile isVisible = ascii "POST" := by
    have hline : line = ascii "POST" ++ SP :: rest := by
      rw [← hrest]
      rfl
    rw [hline, List.takeWhile_append_of_pos (by decide), List.takeWhile_cons, isVisible_blank]
    rfl
  rw [← h.takeWhile, htake]

set_option maxRecDepth 2048 in
theorem requestLine_grammar {op : String} (h : op ∈ OPS) :
    RequestLine (requestLine op) (ascii "POST") (ascii "/v1/" ++ ascii op) ∧
      TargetOk (ascii "/v1/" ++ ascii op) ∧
      PATHS.lookup (ascii "/v1/" ++ ascii op) = some op.toList := by
  have hall : ∀ op ∈ OPS, (∀ c ∈ ascii "/v1/" ++ ascii op, isVisible c = true) ∧
      ((ascii "/v1/" ++ ascii op).head? = some 47 ∧ (ascii "/v1/" ++ ascii op).getLast? ≠ some 47 ∧
        37 ∉ ascii "/v1/" ++ ascii op) ∧
        PATHS.lookup (ascii "/v1/" ++ ascii op) = some op.toList := by
    decide
  obtain ⟨hvisible, htarget, hlookup⟩ := hall op h
  exact ⟨⟨rfl, by decide, List.append_ne_nil_of_left_ne_nil (by decide) _, by decide, hvisible⟩,
    htarget, hlookup⟩

theorem checkRequestLine_cases (line : Bytes) :
    (¬ LineOk line ∧ checkRequestLine line = .error .requestLine) ∨
      (LineOk line ∧ ¬ ascii "POST " <+: line ∧ checkRequestLine line = .error .methodNotAllowed) ∨
      (LineOk line ∧ ascii "POST " <+: line ∧ (∀ op ∈ OPS, line ≠ requestLine op) ∧
        checkRequestLine line = .error .unknownOp) ∨
      ∃ op ∈ OPS, line = requestLine op ∧ checkRequestLine line = .ok op.toList := by
  unfold checkRequestLine
  cases hmatch : matchRequestLine line with
  | none =>
    refine .inl ⟨?_, rfl⟩
    rintro ⟨method, target, hline, -⟩
    rw [matchRequestLine_eq_some_iff.mpr hline] at hmatch
    cases hmatch
  | some parts =>
    obtain ⟨method, target⟩ := parts
    have hline := matchRequestLine_eq_some_iff.mp hmatch
    dsimp only
    by_cases htarget : target.head? ≠ some 47 ∨ target.getLast? = some 47 ∨ 37 ∈ target
    · rw [if_pos htarget]
      refine .inl ⟨?_, rfl⟩
      rintro ⟨method', target', hline', hhead, hlast, hpercent⟩
      rw [matchRequestLine_eq_some_iff.mpr hline'] at hmatch
      cases hmatch
      rcases htarget with hnot | hend | hin
      · exact hnot hhead
      · exact hlast hend
      · exact hpercent hin
    · rw [if_neg htarget]
      have hok : LineOk line := by
        refine ⟨method, target, hline, ?_, ?_, ?_⟩
        · by_contra hnot
          exact htarget (.inl hnot)
        · exact fun hend => htarget (.inr (.inl hend))
        · exact fun hin => htarget (.inr (.inr hin))
      unfold checkMethod
      by_cases hmethod : method = ascii "POST"
      · have hpost : ascii "POST " <+: line := by
          rw [hline.parts, hmethod]
          exact ⟨target ++ ascii " HTTP/1.1", rfl⟩
        rw [if_neg (not_not.mpr hmethod)]
        dsimp only
        unfold checkPath
        cases hlookup : PATHS.lookup target with
        | none =>
          refine .inr (.inr (.inl ⟨hok, hpost, fun op hop heq => ?_, rfl⟩))
          obtain ⟨hgrammar, -, hfound⟩ := requestLine_grammar hop
          rw [heq, matchRequestLine_eq_some_iff.mpr hgrammar] at hmatch
          cases hmatch
          rw [hfound] at hlookup
          cases hlookup
        | some found =>
          obtain ⟨before, after, hpaths, -⟩ := List.lookup_eq_some_iff.mp hlookup
          have hmem : (target, found) ∈ PATHS := hpaths ▸ List.mem_append_right _ List.mem_cons_self
          obtain ⟨op, hop, heq⟩ := List.mem_map.mp hmem
          cases heq
          refine .inr (.inr (.inr ⟨op, hop, ?_, rfl⟩))
          rw [hline.parts, hmethod]
          rfl
      · rw [if_pos hmethod]
        refine .inr (.inl ⟨hok, fun hpost => hmethod (hline.post hpost), rfl⟩)

/-! ## The header lines -/

def headerName (line : Bytes) : Bytes := line.takeWhile (· ≠ COLON)
def headerValue (line : Bytes) : Bytes := line.drop ((headerName line).length + 1)

def headerKey (line : Bytes) : Bytes := lower (headerName line)

structure HeaderOk (line : Bytes) : Prop where
  start : line.head? ≠ some SP ∧ line.head? ≠ some TAB
  colon : COLON ∈ line
  name : SP ∉ headerName line ∧ TAB ∉ headerName line

/-- What is wrong with a line that comes behind the lines `before`. -/
def lineFault (before : List Bytes) (line : Bytes) : Option ParseError :=
  if line.head? = some SP ∨ line.head? = some TAB then some .obsFold
  else if COLON ∉ line then some .headerLine
  else if SP ∈ headerName line ∨ TAB ∈ headerName line then some .headerNameSpace
  else if headerKey line ∈ TABLE_HEADERS ∧ headerKey line ∈ before.map headerKey then
    some .duplicateHeader
  else none

def headerFault (before : List Bytes) : List Bytes → Option ParseError
  | [] => none
  | line :: lines => (lineFault before line).or (headerFault (before ++ [line]) lines)

def tableEntry (line : Bytes) : Option (Bytes × Bytes) :=
  if headerKey line ∈ TABLE_HEADERS then some (headerKey line, headerValue line) else none

variable {before lines : List Bytes} {name raw : Bytes} {n m : ℕ}

theorem partitionColon_eq (line : Bytes) :
    partitionColon line = if COLON ∈ line then
    some (headerName line, headerValue line) else none := by
  have hpre : headerName line <+: line := List.takeWhile_prefix _
  have htake : line.take (headerName line).length = headerName line :=
    (List.prefix_iff_eq_take.mp hpre).symm
  unfold partitionColon
  rw [find_singleton]
  by_cases hcolon : COLON ∈ line
  · rw [if_pos hcolon, if_pos hcolon]
    dsimp only
    exact congrArg (fun name => some (name, headerValue line)) htake
  · rw [if_neg hcolon, if_neg hcolon]

theorem mem_tableEntries (h : name ∈ TABLE_HEADERS) :
    (name, raw) ∈ lines.filterMap tableEntry ↔ ∃ line ∈ lines, headerKey line = name ∧
    headerValue line = raw := by
  rw [List.mem_filterMap]
  constructor
  · rintro ⟨line, hline, hentry⟩
    unfold tableEntry at hentry
    by_cases htable : headerKey line ∈ TABLE_HEADERS
    · rw [if_pos htable] at hentry
      cases hentry
      exact ⟨line, hline, rfl, rfl⟩
    · rw [if_neg htable] at hentry
      cases hentry
  · rintro ⟨line, hline, rfl, rfl⟩
    exact ⟨line, hline, if_pos h⟩

theorem mem_tableKeys (h : name ∈ TABLE_HEADERS) :
    name ∈ (lines.filterMap tableEntry).map Prod.fst ↔ name ∈ lines.map headerKey := by
  rw [List.mem_map, List.mem_map]
  constructor
  · rintro ⟨⟨_, raw⟩, hmem, rfl⟩
    obtain ⟨line, hline, hkey, -⟩ := (mem_tableEntries h).mp hmem
    exact ⟨line, hline, hkey⟩
  · rintro ⟨line, hline, hkey⟩
    exact ⟨(name, headerValue line), (mem_tableEntries h).mpr ⟨line, hline, hkey, rfl⟩, rfl⟩

theorem parseHeader_eq (before : List Bytes) (line : Bytes) :
    parseHeader (before.filterMap tableEntry) line =
      match lineFault before line with
      | some e => .error e
      | none => .ok ((before ++ [line]).filterMap tableEntry) := by
  unfold parseHeader lineFault
  rw [partitionColon_eq]
  by_cases hstart : line.head? = some SP ∨ line.head? = some TAB
  · rw [if_pos hstart, if_pos hstart]
  · rw [if_neg hstart, if_neg hstart]
    by_cases hcolon : COLON ∈ line
    · rw [if_pos hcolon, if_neg (not_not.mpr hcolon)]
      dsimp only
      by_cases hblank : SP ∈ headerName line ∨ TAB ∈ headerName line
      · rw [if_pos hblank, if_pos hblank]
      · rw [if_neg hblank, if_neg hblank, List.filterMap_append]
        change (if headerKey line ∈ TABLE_HEADERS then
          if headerKey line ∈ (before.filterMap tableEntry).map Prod.fst then
            Except.error ParseError.duplicateHeader
          else Except.ok (before.filterMap tableEntry ++ [(headerKey line, headerValue line)])
          else Except.ok (before.filterMap tableEntry)) = _
        by_cases htable : headerKey line ∈ TABLE_HEADERS
        · rw [if_pos htable]
          have hentry : [line].filterMap tableEntry = [(headerKey line, headerValue line)] := by
            simp [tableEntry, htable]
          by_cases hseen : headerKey line ∈ before.map headerKey
          · rw [if_pos ((mem_tableKeys htable).mpr hseen), if_pos ⟨htable, hseen⟩]
          · rw [if_neg (mt (mem_tableKeys htable).mp hseen), if_neg (fun h => hseen h.2), hentry]
        · rw [if_neg htable, if_neg (fun h => htable h.1)]
          simp [tableEntry, htable]
    · rw [if_neg hcolon, if_pos hcolon]

theorem parseHeaders_eq (before lines : List Bytes) :
    parseHeaders (before.filterMap tableEntry) lines =
      match headerFault before lines with
      | some e => .error e
      | none => .ok ((before ++ lines).filterMap tableEntry) := by
  induction lines generalizing before with
  | nil =>
    rw [List.append_nil]
    rfl
  | cons line lines ih =>
    unfold parseHeaders headerFault
    rw [parseHeader_eq]
    cases hfault : lineFault before line with
    | some e => rfl
    | none =>
      dsimp only
      rw [ih, Option.none_or, List.append_assoc, List.singleton_append]

theorem lineFault_eq_none_iff : lineFault before line = none ↔
    HeaderOk line ∧ (headerKey line ∈ TABLE_HEADERS → headerKey line ∉ before.map headerKey) := by
  unfold lineFault
  constructor
  · intro h
    split_ifs at h with hstart hcolon hblank hseen
    exact ⟨⟨not_or.mp hstart, hcolon, not_or.mp hblank⟩, fun htable hin => hseen ⟨htable, hin⟩⟩
  · rintro ⟨⟨hstart, hcolon, hname⟩, hfresh⟩
    rw [if_neg (not_or.mpr hstart), if_neg (not_not.mpr hcolon), if_neg (not_or.mpr hname),
      if_neg (fun h => hfresh h.1 h.2)]

def tableKeys (lines : List Bytes) : List Bytes := (lines.map headerKey).filter (· ∈ TABLE_HEADERS)

theorem headerFault_eq_none_from (before lines : List Bytes) : headerFault before lines = none ↔
    (∀ line ∈ lines, HeaderOk line) ∧ (tableKeys lines).Nodup ∧
      ∀ line ∈ lines, headerKey line ∈ TABLE_HEADERS → headerKey line ∉ before.map headerKey := by
  induction lines generalizing before with
  | nil => simp [headerFault, tableKeys]
  | cons line lines ih =>
    unfold headerFault
    rw [Option.or_eq_none_iff, ih, lineFault_eq_none_iff, List.forall_mem_cons,
      List.forall_mem_cons]
    have hkeys : tableKeys (line :: lines) =
        if headerKey line ∈ TABLE_HEADERS then headerKey line :: tableKeys lines else
          tableKeys lines := by
      simp only [tableKeys, List.map_cons, List.filter_cons, decide_eq_true_eq]
    have hmem (h : headerKey line ∈ TABLE_HEADERS) : headerKey line ∈ tableKeys lines ↔
        ∃ other ∈ lines, headerKey other = headerKey line := by
      simp [tableKeys, h]
    rw [hkeys]
    constructor
    · rintro ⟨⟨hok, hfresh⟩, hall, hnodup, hothers⟩
      refine ⟨⟨hok, hall⟩, ?_, hfresh, fun other hother htable hin => ?_⟩
      · by_cases htable : headerKey line ∈ TABLE_HEADERS
        · rw [if_pos htable, List.nodup_cons]
          refine ⟨fun hin => ?_, hnodup⟩
          obtain ⟨other, hother, hsame⟩ := (hmem htable).mp hin
          exact hothers other hother (hsame ▸ htable) (by simp [hsame])
        · rwa [if_neg htable]
      · exact hothers other hother htable
          (by simp only [List.map_append]; exact List.mem_append_left _ hin)
    · rintro ⟨⟨hok, hall⟩, hnodup, hfresh, hothers⟩
      refine ⟨⟨hok, hfresh⟩, hall, ?_, fun other hother htable hin => ?_⟩
      · by_cases htable : headerKey line ∈ TABLE_HEADERS
        · rw [if_pos htable] at hnodup
          exact (List.nodup_cons.mp hnodup).2
        · rwa [if_neg htable] at hnodup
      · rw [List.map_append, List.mem_append] at hin
        rcases hin with hin | hin
        · exact hothers other hother htable hin
        · have hsame : headerKey other = headerKey line := List.mem_singleton.mp hin
          have hline : headerKey line ∈ TABLE_HEADERS := hsame ▸ htable
          rw [if_pos hline] at hnodup
          exact (List.nodup_cons.mp hnodup).1 ((hmem hline).mpr ⟨other, hother, hsame⟩)

theorem headerFault_eq_none_iff :
    headerFault [] lines = none ↔ (∀ line ∈ lines, HeaderOk line) ∧ (tableKeys lines).Nodup := by
  rw [headerFault_eq_none_from]
  simp

/-! ## The length -/

def decimalFrom (n : ℕ) (digits : Bytes) : ℕ := digits.foldl (fun n d => n * 10 + (d.toNat - 48)) n

/-- Digits only, behind one blank or none. -/
def LengthText (raw : Bytes) (n : ℕ) : Prop :=
  ∃ digits, (raw = digits ∨ raw = SP :: digits) ∧ digits ≠ [] ∧ (∀ d ∈ digits, isDigit d = true) ∧
    n = decimalFrom 0 digits

theorem decimalFrom_le (n : ℕ) (digits : Bytes) : n ≤ decimalFrom n digits := by
  induction digits generalizing n with
  | nil => exact le_refl n
  | cons d digits ih =>
    have h := ih (n * 10 + (d.toNat - 48))
    have hstep : decimalFrom n (d :: digits) = decimalFrom (n * 10 + (d.toNat - 48)) digits := rfl
    omega

theorem countDigits_eq (n : ℕ) (digits : Bytes) :
    countDigits n digits = decimalFrom n digits ∨
      (MAX_BODY_BYTES < countDigits n digits ∧ MAX_BODY_BYTES < decimalFrom n digits) := by
  induction digits generalizing n with
  | nil => exact .inl rfl
  | cons d digits ih =>
    have hstep : decimalFrom n (d :: digits) = decimalFrom (n * 10 + (d.toNat - 48)) digits := rfl
    unfold countDigits
    dsimp only
    by_cases hover : MAX_BODY_BYTES < n * 10 + (d.toNat - 48)
    · rw [if_pos hover, hstep]
      have hle := decimalFrom_le (n * 10 + (d.toNat - 48)) digits
      exact .inr ⟨hover, by omega⟩
    · rw [if_neg hover, hstep]
      exact ih _

theorem digits_head {digits : Bytes} (hne : digits ≠ []) (hall : ∀ d ∈ digits, isDigit d = true) :
    digits.head? ≠ some SP := by
  cases digits with
  | nil => exact absurd rfl hne
  | cons d digits =>
    intro h
    have hd : d = SP := Option.some.inj h
    have hdigit := hall d List.mem_cons_self
    rw [hd] at hdigit
    exact absurd hdigit (by decide)

theorem LengthText.unique (h : LengthText raw n) (k : LengthText raw m) : n = m := by
  obtain ⟨ds, hds, hne, hall, rfl⟩ := h
  obtain ⟨es, hes, hne', hall', rfl⟩ := k
  have hhead := digits_head hne hall
  have hhead' := digits_head hne' hall'
  rcases hds with rfl | rfl
  · rcases hes with rfl | rfl
    · rfl
    · exact absurd rfl hhead
  · rcases hes with rfl | heq
    · exact absurd rfl hhead'
    · rw [List.cons.inj heq |>.2]

theorem parseLength_cases (raw : Bytes) :
    ((∀ n, ¬ LengthText raw n) ∧ parseLength raw = .error .contentLength) ∨
      ∃ n m, LengthText raw n ∧ parseLength raw = .ok m ∧
        (m = n ∨ (MAX_BODY_BYTES < m ∧ MAX_BODY_BYTES < n)) := by
  unfold parseLength
  dsimp only
  generalize hvalue : (if raw.head? = some SP then raw.tail else raw) = value
  have hraw (digits : Bytes) (hdigits : raw = digits ∨ raw = SP :: digits) (hne : digits ≠ [])
      (hall : ∀ d ∈ digits, isDigit d = true) : value = digits := by
    rcases hdigits with rfl | rfl
    · rw [if_neg (digits_head hne hall)] at hvalue
      exact hvalue.symm
    · have hhead : (SP :: digits).head? = some SP := rfl
      rw [if_pos hhead] at hvalue
      exact hvalue.symm
  have hback : raw = value ∨ raw = SP :: value := by
    by_cases hhead : raw.head? = some SP
    · rw [if_pos hhead] at hvalue
      cases raw with
      | nil => cases hhead
      | cons c rest =>
        rw [← hvalue, Option.some.inj hhead]
        exact .inr rfl
    · rw [if_neg hhead] at hvalue
      exact .inl hvalue
  by_cases hbad : value = [] ∨ ¬ value.all isDigit
  · rw [if_pos hbad]
    refine .inl ⟨?_, rfl⟩
    rintro n ⟨digits, hdigits, hne, hall, -⟩
    rw [hraw digits hdigits hne hall] at hbad
    rcases hbad with hempty | hnot
    · exact hne hempty
    · exact hnot (List.all_eq_true.mpr hall)
  · rw [if_neg hbad]
    obtain ⟨hne, hall⟩ := not_or.mp hbad
    have hdigits : ∀ d ∈ value, isDigit d = true := List.all_eq_true.mp (not_not.mp hall)
    exact .inr ⟨_, _, ⟨value, hback, hne, hdigits, rfl⟩, rfl, countDigits_eq 0 value⟩

/-! ## The body -/

/-- A value as `json.loads` reads it, before the hooks. -/
def Parsed.of : Json → Parsed
  | .null => .null
  | .bool value => .bool value
  | .int value => .int value
  | .other => .other
  | .str text => .str text
  | .arr items => .arr (ofItems items)
  | .obj members => .obj (ofMembers members)
where
  ofItems : List Json → List Parsed
    | [] => []
    | item :: items => Parsed.of item :: ofItems items
  ofMembers : List (Text × Json) → List (Text × Parsed)
    | [] => []
    | (key, value) :: members => (key, Parsed.of value) :: ofMembers members

def KeysUnique : Json → Prop
  | .arr items => uniqueItems items
  | .obj members => (members.map Prod.fst).Nodup ∧ uniqueMembers members
  | _ => True
where
  uniqueItems : List Json → Prop
    | [] => True
    | item :: items => KeysUnique item ∧ uniqueItems items
  uniqueMembers : List (Text × Json) → Prop
    | [] => True
    | (_, value) :: members => KeysUnique value ∧ uniqueMembers members

theorem dedup_length_iff {α : Type} [DecidableEq α] (l : List α) :
    l.dedup.length = l.length ↔ l.Nodup := by
  constructor
  · intro h
    exact List.dedup_eq_self.mp ((List.dedup_sublist l).eq_of_length h)
  · intro h
    rw [List.dedup_eq_self.mpr h]

theorem objectNoDup_eq_some_iff {pairs : List (Text × Json)} {value : Json} :
    objectNoDup pairs = some value ↔ value = .obj pairs ∧ (pairs.map Prod.fst).Nodup := by
  unfold objectNoDup
  rw [← dedup_length_iff, List.length_map]
  by_cases h : (pairs.map Prod.fst).dedup.length = pairs.length
  · rw [if_neg (not_not.mpr h)]
    constructor
    · intro heq
      cases heq
      exact ⟨rfl, h⟩
    · rintro ⟨rfl, -⟩
      rfl
  · rw [if_pos h]
    constructor
    · intro heq
      cases heq
    · rintro ⟨-, heq⟩
      exact absurd heq h

mutual

theorem hooked_eq_some_iff (parsed : Parsed) (value : Json) :
    hooked parsed = some value ↔ parsed = Parsed.of value ∧ KeysUnique value := by
  cases parsed with
  | null => cases value <;> simp [hooked, Parsed.of, KeysUnique]
  | bool b => cases value <;> simp [hooked, Parsed.of, KeysUnique]
  | int n => cases value <;> simp [hooked, Parsed.of, KeysUnique]
  | other => cases value <;> simp [hooked, Parsed.of, KeysUnique]
  | constant => cases value <;> simp [hooked, Parsed.of]
  | str text => cases value <;> simp [hooked, Parsed.of, KeysUnique]
  | arr items =>
    have hitems := hookedItems_eq_some_iff items
    cases value with
    | arr values => simp [hooked, Parsed.of, KeysUnique, hitems]
    | null => simp [hooked, Parsed.of]
    | bool => simp [hooked, Parsed.of]
    | int => simp [hooked, Parsed.of]
    | other => simp [hooked, Parsed.of]
    | str => simp [hooked, Parsed.of]
    | obj => simp [hooked, Parsed.of]
  | obj pairs =>
    have hpairs := hookedPairs_eq_some_iff pairs
    unfold hooked
    rw [Option.bind_eq_some_iff]
    constructor
    · rintro ⟨members, hmembers, hvalue⟩
      obtain ⟨rfl, hnodup⟩ := objectNoDup_eq_some_iff.mp hvalue
      obtain ⟨rfl, hunique⟩ := (hpairs members).mp hmembers
      exact ⟨by rw [Parsed.of], by rw [KeysUnique]; exact ⟨hnodup, hunique⟩⟩
    · rintro ⟨hof, hunique⟩
      cases value with
      | obj members =>
        rw [Parsed.of] at hof
        cases hof
        rw [KeysUnique] at hunique
        exact ⟨members, (hpairs members).mpr ⟨rfl, hunique.2⟩,
          objectNoDup_eq_some_iff.mpr ⟨rfl, hunique.1⟩⟩
      | null => simp [Parsed.of] at hof
      | bool => simp [Parsed.of] at hof
      | int => simp [Parsed.of] at hof
      | other => simp [Parsed.of] at hof
      | str => simp [Parsed.of] at hof
      | arr => simp [Parsed.of] at hof

theorem hookedItems_eq_some_iff (items : List Parsed) (values : List Json) :
    hooked.hookedItems items = some values ↔
      items = Parsed.of.ofItems values ∧ KeysUnique.uniqueItems values := by
  cases items with
  | nil => cases values <;> simp [hooked.hookedItems, Parsed.of.ofItems, KeysUnique.uniqueItems]
  | cons item items =>
    have hitem := hooked_eq_some_iff item
    have hitems := hookedItems_eq_some_iff items
    unfold hooked.hookedItems
    cases values with
    | nil =>
      cases hooked item <;> cases hooked.hookedItems items <;> simp [Parsed.of.ofItems]
    | cons value values =>
      rw [Parsed.of.ofItems, KeysUnique.uniqueItems, List.cons.injEq, and_and_and_comm,
        ← hitem, ← hitems]
      cases hooked item <;> cases hooked.hookedItems items <;> simp

theorem hookedPairs_eq_some_iff (pairs : List (Text × Parsed)) (members : List (Text × Json)) :
    hooked.hookedPairs pairs = some members ↔
      pairs = Parsed.of.ofMembers members ∧ KeysUnique.uniqueMembers members := by
  cases pairs with
  | nil =>
    cases members <;> simp [hooked.hookedPairs, Parsed.of.ofMembers, KeysUnique.uniqueMembers]
  | cons pair pairs =>
    obtain ⟨key, item⟩ := pair
    have hitem := hooked_eq_some_iff item
    have hpairs := hookedPairs_eq_some_iff pairs
    unfold hooked.hookedPairs
    cases members with
    | nil =>
      cases hooked item <;> cases hooked.hookedPairs pairs <;> simp [Parsed.of.ofMembers]
    | cons member members =>
      obtain ⟨name, value⟩ := member
      rw [Parsed.of.ofMembers, KeysUnique.uniqueMembers, List.cons.injEq,
        and_and_and_comm, ← hpairs,
        Prod.mk.injEq]
      have hpair : ((key = name ∧ item = Parsed.of value) ∧ KeysUnique value) ∧
            hooked.hookedPairs pairs = some members ↔
          key = name ∧ hooked item = some value ∧ hooked.hookedPairs pairs = some members := by
        rw [hitem]
        tauto
      rw [hpair]
      cases hooked item <;> cases hooked.hookedPairs pairs <;> simp [and_assoc]

end

theorem decodeUtf8_eq_some_iff {body : Bytes} {text : Text} :
    decodeUtf8 body = some text ↔ body = text.flatMap String.utf8EncodeChar := by
  rw [← List.toByteArray_inj]
  change _ ↔ body.toByteArray = text.utf8Encode
  unfold decodeUtf8 String.fromUTF8?
  by_cases hvalid : body.toByteArray.IsValidUTF8
  · have hbytes : body.toByteArray = (String.fromUTF8 body.toByteArray hvalid).toByteArray := rfl
    rw [dif_pos hvalid, Option.map_some, Option.some_inj, ← String.toByteArray_ofList]
    generalize String.fromUTF8 body.toByteArray hvalid = decoded at hbytes ⊢
    rw [hbytes, String.toByteArray_inj]
    constructor
    · rintro rfl
      exact String.ofList_toList.symm
    · intro h
      rw [h, String.toList_ofList]
  · rw [dif_neg hvalid]
    constructor
    · intro h
      cases h
    · intro h
      exact absurd (h ▸ ByteArray.isValidUTF8_utf8Encode) hvalid

/-- A JSON object in UTF-8 without duplicate keys. -/
def JsonObject (loads : Text → Option Parsed) (body : Bytes) (value : Json) : Prop :=
  ∃ text members, body = text.flatMap String.utf8EncodeChar ∧ value = .obj members ∧
    loads text = some (Parsed.of value) ∧ KeysUnique value

theorem hooked_of {value : Json} (h : KeysUnique value) : hooked (Parsed.of value) = some value :=
  (hooked_eq_some_iff _ _).mpr ⟨rfl, h⟩

theorem parseBody_cases (loads : Text → Option Parsed) (body : Bytes) :
    (∃ value, JsonObject loads body value ∧ parseBody loads body = .ok value) ∨
      ((∀ value, ¬ JsonObject loads body value) ∧ parseBody loads body = .error .body) := by
  unfold parseBody
  have hread (value : Json) : JsonObject loads body value →
      (decodeUtf8 body).bind loads = some (Parsed.of value) := by
    rintro ⟨text, members, hbody, -, hloads, -⟩
    rw [decodeUtf8_eq_some_iff.mpr hbody]
    exact hloads
  cases hparsed : (decodeUtf8 body).bind loads with
  | none =>
    refine .inr ⟨fun value hobject => ?_, rfl⟩
    rw [hread value hobject] at hparsed
    cases hparsed
  | some parsed =>
    dsimp only
    have hnot (hfailed : ∀ members, hooked parsed ≠ some (.obj members)) :
        ∀ value, ¬ JsonObject loads body value := by
      intro value hobject
      have hsame := hread value hobject
      rw [hparsed] at hsame
      obtain ⟨-, members, -, rfl, -, hunique⟩ := hobject
      apply hfailed members
      rw [Option.some.inj hsame]
      exact hooked_of hunique
    cases hhooked : hooked parsed with
    | none => exact .inr ⟨hnot (by rw [hhooked]; simp), rfl⟩
    | some value =>
      cases value with
      | obj members =>
        obtain ⟨rfl, hunique⟩ := (hooked_eq_some_iff parsed _).mp hhooked
        obtain ⟨text, htext, hloads⟩ := Option.bind_eq_some_iff.mp hparsed
        exact .inl ⟨.obj members,
          ⟨text, members, decodeUtf8_eq_some_iff.mp htext, rfl, hloads, hunique⟩, rfl⟩
      | null => exact .inr ⟨hnot (by rw [hhooked]; simp), rfl⟩
      | bool => exact .inr ⟨hnot (by rw [hhooked]; simp), rfl⟩
      | int => exact .inr ⟨hnot (by rw [hhooked]; simp), rfl⟩
      | other => exact .inr ⟨hnot (by rw [hhooked]; simp), rfl⟩
      | str => exact .inr ⟨hnot (by rw [hhooked]; simp), rfl⟩
      | arr => exact .inr ⟨hnot (by rw [hhooked]; simp), rfl⟩

/-! ## The checks in their order -/

def firstLine (head : Head) : Option Bytes := (find CRLF head.head).map head.head.take

def headerLines (head : Head) : List Bytes :=
  (split CRLF (head.head.take (head.head.length - 4))).tail

def ContentLength (lines : List Bytes) (n : ℕ) : Prop :=
  ∃ line ∈ lines, headerKey line = ascii "content-length" ∧ LengthText (headerValue line) n

open Classical in
noncomputable def failing (holds : Prop) (e : ParseError) : Option ParseError :=
  if holds then none else some e

/-- The checks 1 to 7 on a head, each on its own. -/
noncomputable def documentedChecks (head : Head) : List (Option ParseError) :=
  [failing (∀ line, firstLine head = some line → LineOk line) .requestLine,
    failing (∀ line, firstLine head = some line → ascii "POST " <+: line) .methodNotAllowed,
    failing (∀ line, firstLine head = some line → ∃ op ∈ OPS, line = requestLine op) .unknownOp,
    failing (head.tooLong = false ∧ firstLine head ≠ none) .headerTooLarge,
    headerFault [] (headerLines head),
    failing (ascii "transfer-encoding" ∉ (headerLines head).map headerKey) .transferEncoding,
    failing (ascii "content-length" ∈ (headerLines head).map headerKey) .lengthRequired,
    failing (∃ n, ContentLength (headerLines head) n) .contentLength,
    failing (∃ n, ContentLength (headerLines head) n ∧ n ≤ MAX_BODY_BYTES) .bodyTooLarge]

def firstFailing (checks : List (Option ParseError)) : Option ParseError := checks.findSome? id

variable {checks : List (Option ParseError)} {e : ParseError} {holds : Prop}

theorem firstFailing_holds (h : holds) :
    firstFailing (failing holds e :: checks) = firstFailing checks := by
  unfold failing
  rw [if_pos h]
  rfl

theorem firstFailing_fails (h : ¬ holds) : firstFailing (failing holds e :: checks) = some e := by
  unfold failing
  rw [if_neg h]
  rfl

/-- Lines that pass the checks 5 and 6. -/
structure HeadersOk (lines : List Bytes) : Prop where
  each : ∀ line ∈ lines, HeaderOk line
  unique : (tableKeys lines).Nodup
  plain : ascii "transfer-encoding" ∉ lines.map headerKey

theorem mem_inj_of_tableKeys {a b : Bytes} (hnodup : (tableKeys lines).Nodup) (ha : a ∈ lines)
    (hb : b ∈ lines) (htable : headerKey a ∈ TABLE_HEADERS) (hsame : headerKey a = headerKey b) :
    a = b := by
  unfold tableKeys at hnodup
  rw [List.filter_map] at hnodup
  apply List.inj_on_of_nodup_map hnodup
  · exact List.mem_filter.mpr ⟨ha, by simpa using htable⟩
  · exact List.mem_filter.mpr ⟨hb, by simpa using hsame ▸ htable⟩
  · exact hsame

theorem ContentLength.unique (hnodup : (tableKeys lines).Nodup) (h : ContentLength lines n)
    (k : ContentLength lines m) : n = m := by
  obtain ⟨a, ha, hkey, hn⟩ := h
  obtain ⟨b, hb, hkey', hm⟩ := k
  have hsame := mem_inj_of_tableKeys hnodup ha hb (by rw [hkey]; decide) (hkey.trans hkey'.symm)
  subst hsame
  exact hn.unique hm

theorem lookup_isSome_iff (h : name ∈ TABLE_HEADERS) :
    ((lines.filterMap tableEntry).lookup name).isSome = true ↔ name ∈ lines.map headerKey := by
  rw [← mem_tableKeys h, List.lookup_isSome_iff]
  simp

theorem lookup_mem (h : name ∈ TABLE_HEADERS)
    (hlookup : (lines.filterMap tableEntry).lookup name = some raw) :
    ∃ line ∈ lines, headerKey line = name ∧ headerValue line = raw := by
  obtain ⟨front, back, hparts, -⟩ := List.lookup_eq_some_iff.mp hlookup
  exact (mem_tableEntries h).mp (hparts ▸ List.mem_append_right _ List.mem_cons_self)

/-- A head passes all checks and gives the operation and the length, or the first check that it
fails gives the error. -/
theorem judgeHead_cases (head : Head) :
    (∃ e, judgeHead head = .error e ∧ firstFailing (documentedChecks head) = some e) ∨
      ∃ op n, judgeHead head = .ok (op.toList, n) ∧ firstFailing (documentedChecks head) = none ∧
        op ∈ OPS ∧ firstLine head = some (requestLine op) ∧ head.tooLong = false ∧
        HeadersOk (headerLines head) ∧ ContentLength (headerLines head) n ∧ n ≤ MAX_BODY_BYTES := by
  unfold judgeHead documentedChecks
  have hline : firstLine head = (find CRLF head.head).map head.head.take := rfl
  cases hfind : find CRLF head.head with
  | none =>
    rw [hfind, Option.map_none] at hline
    rw [hline]
    refine .inl ⟨.headerTooLarge, rfl, ?_⟩
    rw [firstFailing_holds (by simp), firstFailing_holds (by simp), firstFailing_holds (by simp),
      firstFailing_fails (fun h => h.2 rfl)]
  | some lineEnd =>
    rw [hfind, Option.map_some] at hline
    dsimp only
    generalize head.head.take lineEnd = line at hline
    rw [hline]
    have hsome (P : Bytes → Prop) : (∀ l, some line = some l → P l) ↔ P line :=
      ⟨fun h => h line rfl, fun h l heq => Option.some.inj heq ▸ h⟩
    rw [hsome, hsome, hsome]
    rcases checkRequestLine_cases line with ⟨hnot, hcheck⟩ | ⟨hok, hnot, hcheck⟩ | ⟨hok, hpost,
      hnot, hcheck⟩ |
      ⟨op, hop, hsame, hcheck⟩
    · rw [hcheck]
      exact .inl ⟨_, rfl, firstFailing_fails hnot⟩
    · rw [hcheck]
      exact .inl ⟨_, rfl, by rw [firstFailing_holds hok, firstFailing_fails hnot]⟩
    · rw [hcheck]
      refine .inl ⟨_, rfl, ?_⟩
      rw [firstFailing_holds hok, firstFailing_holds hpost,
        firstFailing_fails (by rintro ⟨op, hop, heq⟩; exact hnot op hop heq)]
    · have hok : LineOk line :=
        ⟨_, _, hsame ▸ (requestLine_grammar hop).1, (requestLine_grammar hop).2.1⟩
      have hpost : ascii "POST " <+: line := by
        rw [hsame]
        exact ⟨ascii "/v1/" ++ ascii op ++ ascii " HTTP/1.1", rfl⟩
      rw [hcheck, firstFailing_holds hok, firstFailing_holds hpost,
        firstFailing_holds ⟨op, hop, hsame⟩]
      dsimp only
      by_cases hover : head.tooLong = true
      · rw [if_pos hover]
        refine .inl ⟨_, rfl, firstFailing_fails fun h => ?_⟩
        rw [hover] at h
        exact Bool.noConfusion h.1
      · have hunder : head.tooLong = false := Bool.eq_false_iff.mpr hover
        rw [if_neg hover, firstFailing_holds ⟨hunder, Option.some_ne_none line⟩]
        have hheaders := parseHeaders_eq [] (headerLines head)
        rw [List.filterMap_nil, List.nil_append] at hheaders
        rw [show (split CRLF (head.head.take (head.head.length - 4))).tail =
          headerLines head from rfl, hheaders]
        generalize headerLines head = lines
        cases hfault : headerFault [] lines with
        | some e => exact .inl ⟨e, rfl, rfl⟩
        | none =>
          obtain ⟨heach, hunique⟩ := headerFault_eq_none_iff.mp hfault
          have hte : ascii "transfer-encoding" ∈ TABLE_HEADERS := by decide
          have hcl : ascii "content-length" ∈ TABLE_HEADERS := by decide
          have hpass (checks : List (Option ParseError)) : firstFailing (none :: checks) =
            firstFailing checks := rfl
          rw [hpass]
          dsimp only
          by_cases hplain : ascii "transfer-encoding" ∈ lines.map headerKey
          · rw [if_pos ((lookup_isSome_iff hte).mpr hplain)]
            exact .inl ⟨_, rfl, firstFailing_fails (not_not.mpr hplain)⟩
          · rw [if_neg (mt (lookup_isSome_iff hte).mp hplain), firstFailing_holds hplain]
            have hfound :
              ((lines.filterMap tableEntry).lookup (ascii "content-length")).isSome = true ↔
                ascii "content-length" ∈ lines.map headerKey := lookup_isSome_iff hcl
            cases hlookup : (lines.filterMap tableEntry).lookup (ascii "content-length") with
            | none =>
              rw [hlookup] at hfound
              exact .inl ⟨_, rfl, firstFailing_fails (fun h => Bool.noConfusion (hfound.mpr h))⟩
            | some raw =>
              rw [hlookup] at hfound
              rw [firstFailing_holds (hfound.mp rfl)]
              dsimp only
              obtain ⟨line, hline, hkey, hraw⟩ := lookup_mem hcl hlookup
              rcases parseLength_cases raw with ⟨hbad, hparse⟩ | ⟨n, m, htext, hparse, hcount⟩
              · rw [hparse]
                refine .inl ⟨_, rfl, firstFailing_fails ?_⟩
                rintro ⟨n, other, hother, hkey', htext⟩
                have hsame :=
                  mem_inj_of_tableKeys hunique hline hother (hkey ▸ hcl) (hkey.trans hkey'.symm)
                exact hbad n (hraw ▸ hsame ▸ htext)
              · have hlength : ContentLength lines n := ⟨line, hline, hkey, hraw ▸ htext⟩
                rw [hparse, firstFailing_holds ⟨n, hlength⟩]
                dsimp only
                by_cases hbig : MAX_BODY_BYTES < m
                · rw [if_pos hbig]
                  refine .inl ⟨_, rfl, firstFailing_fails ?_⟩
                  rintro ⟨n', hlength', hsmall⟩
                  have hsame := hlength'.unique hunique hlength
                  rcases hcount with heq | ⟨-, hover⟩
                  · omega
                  · omega
                · rw [if_neg hbig]
                  have heq : m = n := by
                    rcases hcount with heq | ⟨hover, -⟩
                    · exact heq
                    · exact absurd hover hbig
                  subst heq
                  have hsmall : m ≤ MAX_BODY_BYTES := Nat.not_lt.mp hbig
                  rw [firstFailing_holds ⟨m, hlength, hsmall⟩]
                  exact .inr ⟨op, m, rfl, rfl, hop, by
                    rw [hsame], hunder, ⟨heach, hunique, hplain⟩, hlength, hsmall⟩

/-! ## Requests -/

/-- The request line and the header lines, up to the empty line. -/
def requestHead (op : String) (lines : List Bytes) : Bytes :=
  (requestLine op :: lines).flatMap (· ++ CRLF) ++ CRLF

inductive Accepted (loads : Text → Option Parsed) (stream : Bytes) : Text → Json → Prop where
  | intro (op : String) (lines : List Bytes) (body more : Bytes) (value : Json) :
      op ∈ OPS → stream = requestHead op lines ++ body ++ more →
      (requestHead op lines).length ≤ MAX_HEADER_BYTES → (∀ line ∈ lines, ¬ CRLF <:+: line) →
      HeadersOk lines → ContentLength lines body.length → body.length ≤ MAX_BODY_BYTES →
      JsonObject loads body value → Accepted loads stream op.toList value

def Unfinished (stream : Bytes) : Prop :=
  streamHead stream = none ∨
    ∃ head n, streamHead stream = some head ∧ firstFailing (documentedChecks head) = none ∧
      ContentLength (headerLines head) n ∧ head.rest.length < n

/-- The first check that a stream fails, with the body as the last one. -/
inductive Refused (loads : Text → Option Parsed) (stream : Bytes) : ParseError → Prop where
  | head (head : Head) (e : ParseError) : streamHead stream = some head →
      firstFailing (documentedChecks head) = some e → Refused loads stream e
  | body (head : Head) (n : ℕ) : streamHead stream = some head →
      firstFailing (documentedChecks head) = none → ContentLength (headerLines head) n →
      n ≤ head.rest.length → (∀ value, ¬ JsonObject loads (head.rest.take n) value) →
      Refused loads stream .body

theorem cr_ne_lf : CR ≠ LF := by decide

theorem requestHead_eq (op : String) (lines : List Bytes) :
    requestHead op lines = CRLF.intercalate (requestLine op :: lines) ++ HEAD_END := by
  unfold requestHead
  rw [← intercalate_append, List.append_assoc]
  rfl

theorem requestLine_clean {op : String} (h : op ∈ OPS) : ¬ CRLF <:+: requestLine op := by
  have hall : ∀ op ∈ OPS, ¬ CRLF <:+: requestLine op := by decide +kernel
  exact hall op h

theorem requestLine_inj {op op' : String} (h : op ∈ OPS) (h' : op' ∈ OPS)
    (heq : requestLine op = requestLine op') : op = op' := by
  have hall : ∀ op ∈ OPS, ∀ op' ∈ OPS, requestLine op = requestLine op' → op = op' := by
    decide +kernel
  exact hall op h op' h' heq

theorem streamHead_lines {piece : Bytes} {pieces : List Bytes} {rest : Bytes}
    (hpiece : ¬ CRLF <:+: piece) (hpieces : ∀ p ∈ pieces, p ≠ [] ∧ ¬ CRLF <:+: p)
    (hlength : (CRLF.intercalate (piece :: pieces) ++ HEAD_END).length ≤ MAX_HEADER_BYTES) :
    streamHead (CRLF.intercalate (piece :: pieces) ++ HEAD_END ++ rest) =
      some ⟨CRLF.intercalate (piece :: pieces) ++ HEAD_END, rest, false⟩ := by
  have hfirst := firstAt_pieces cr_ne_lf hpiece hpieces rest
  have hfour : HEAD_END.length = 4 := rfl
  rw [List.length_append] at hlength
  have hfind := find_take_eq_some_iff.mpr ⟨hfirst.find_eq, hlength⟩
  change find HEAD_END
    ((CRLF.intercalate (piece :: pieces) ++ HEAD_END ++ rest).take MAX_HEADER_BYTES) = _ at hfind
  rw [streamHead_of_find hfind]
  have hsize : (CRLF.intercalate (piece :: pieces)).length + 4 =
      (CRLF.intercalate (piece :: pieces) ++ HEAD_END).length := by
    rw [List.length_append, hfour]
  change some (Head.mk (List.take ((CRLF.intercalate (piece :: pieces)).length + 4) _)
    (List.drop ((CRLF.intercalate (piece :: pieces)).length + 4) _) false) = _
  rw [hsize, List.take_left, List.drop_left]

theorem head_lines {piece : Bytes} {pieces : List Bytes} (rest : Bytes) (tooLong : Bool)
    (hpiece : ¬ CRLF <:+: piece) (hpieces : ∀ p ∈ pieces, ¬ CRLF <:+: p) :
    firstLine ⟨CRLF.intercalate (piece :: pieces) ++ HEAD_END, rest, tooLong⟩ = some piece ∧
      headerLines ⟨CRLF.intercalate (piece :: pieces) ++ HEAD_END, rest, tooLong⟩ = pieces := by
  constructor
  · have hstart : ∃ more, CRLF.intercalate (piece :: pieces) ++ HEAD_END = piece ++
      CRLF ++ more := by
      cases pieces with
      | nil => exact ⟨CRLF, by rw [List.intercalate_singleton, List.append_assoc]; rfl⟩
      | cons p pieces => exact ⟨_, by rw [List.intercalate_cons_cons, List.append_assoc]⟩
    obtain ⟨more, hmore⟩ := hstart
    have hfind := (firstAt_piece cr_ne_lf hpiece more).find_eq
    unfold firstLine
    dsimp only
    rw [hmore]
    change (find [CR, LF] (piece ++ [CR, LF] ++ more)).map _ = _
    rw [hfind, Option.map_some, List.append_assoc, List.take_left]
  · have hsize : (CRLF.intercalate (piece :: pieces) ++ HEAD_END).length - 4 =
        (CRLF.intercalate (piece :: pieces)).length := by
      rw [List.length_append]
      exact Nat.add_sub_cancel _ 4
    unfold headerLines
    dsimp only
    rw [hsize, List.take_left]
    have hsplit := split_pieces cr_ne_lf (List.cons_ne_nil piece pieces)
      (List.forall_mem_cons.mpr ⟨hpiece, hpieces⟩)
    exact congrArg List.tail hsplit

theorem streamHead_parts (h : streamHead stream = some head) (hunder : head.tooLong = false) :
    ∃ piece pieces, head.head = CRLF.intercalate (piece :: pieces) ++ HEAD_END ∧
      stream = head.head ++ head.rest ∧ head.head.length ≤ MAX_HEADER_BYTES ∧
      ¬ CRLF <:+: piece ∧ ∀ p ∈ pieces, ¬ CRLF <:+: p := by
  cases hfind : find HEAD_END (stream.take MAX_HEADER_BYTES) with
  | none =>
    rw [streamHead_of_none hfind] at h
    by_cases hlong : MAX_HEADER_BYTES ≤ stream.length
    · rw [if_pos hlong] at h
      cases h
      cases hunder
    · rw [if_neg hlong] at h
      cases h
  | some last =>
    rw [streamHead_of_find hfind] at h
    cases h
    obtain ⟨hstream, hfits⟩ := find_take_eq_some_iff.mp hfind
    have hfour : HEAD_END.length = 4 := rfl
    have hfirst := find_firstAt hstream
    have hlength := hfirst.length_le
    have hhead : stream.take (last + 4) = stream.take last ++ HEAD_END := by
      rw [hfour] at hlength
      conv_lhs => rw [hfirst.eq_append, hfour]
      have hsize : (stream.take last ++ HEAD_END).length = last + 4 := by
        rw [List.length_append, List.length_take, hfour]
        omega
      rw [← hsize, List.take_left]
    have hclean := split_within (show CRLF ≠ [] by decide) (stream.take last)
    have hjoin : CRLF.intercalate (split CRLF (stream.take last)) = stream.take last :=
      split_intercalate _
    cases hpieces : split CRLF (stream.take last) with
    | nil => exact absurd hpieces (splitFor_ne_nil _ _)
    | cons piece pieces =>
      rw [hpieces] at hclean hjoin
      obtain ⟨hpiece, hmore⟩ := List.forall_mem_cons.mp hclean
      refine ⟨piece, pieces, ?_, (List.take_append_drop _ _).symm, ?_, hpiece, hmore⟩
      · dsimp only
        rw [hhead, hjoin]
      · dsimp only
        rw [List.length_take]
        omega

theorem HeadersOk.nonempty (h : HeadersOk lines) (hclean : ∀ line ∈ lines, ¬ CRLF <:+: line) :
    ∀ line ∈ lines, line ≠ [] ∧ ¬ CRLF <:+: line := by
  intro line hline
  exact ⟨List.ne_nil_of_mem (h.each line hline).colon, hclean line hline⟩

/-- What is made of a whole stream: a request, the first check that fails, or that it ends too
early. -/
theorem judgeStream_cases (loads : Text → Option Parsed) (stream : Bytes) (eof : Bool) :
    (∃ op value, Accepted loads stream op value ∧ judgeStream loads stream eof = .ok ⟨op, value⟩) ∨
      (∃ e, Refused loads stream e ∧ judgeStream loads stream eof = .error (.refused e)) ∨
      (Unfinished stream ∧ judgeStream loads stream eof = .error (unfinished eof)) := by
  unfold judgeStream
  cases hhead : streamHead stream with
  | none => exact .inr (.inr ⟨.inl hhead, rfl⟩)
  | some head =>
    dsimp only
    rcases judgeHead_cases head with ⟨e, hjudge, hfails⟩ | ⟨op, n, hjudge, hpasses, hop, hline,
      hunder, hok, hlength, hsmall⟩
    · rw [hjudge]
      exact .inr (.inl ⟨e, .head head e hhead hfails, rfl⟩)
    · rw [hjudge]
      dsimp only
      by_cases hshort : head.rest.length < n
      · rw [if_pos hshort]
        exact .inr (.inr ⟨.inr ⟨head, n, hhead, hpasses, hlength, hshort⟩, rfl⟩)
      · rw [if_neg hshort]
        rcases parseBody_cases loads
          (head.rest.take n) with ⟨value, hobject, hbody⟩ | ⟨hnone, hbody⟩
        · rw [hbody]
          refine .inl ⟨op.toList, value, ?_, rfl⟩
          obtain ⟨piece, pieces, hparts, hstream, hfits, hpiece, hpieces⟩ :=
            streamHead_parts hhead hunder
          have hlines := head_lines head.rest head.tooLong hpiece hpieces
          rw [← hparts] at hlines
          have hfirst : piece = requestLine op := Option.some.inj (hlines.1.symm.trans hline)
          have hheader : headerLines head = pieces := hlines.2
          rw [hheader] at hok hlength
          have hsize : (head.rest.take n).length = n := by
            rw [List.length_take]
            omega
          refine .intro op pieces (head.rest.take n) (head.rest.drop n) value hop ?_ ?_ hpieces hok
            (hsize.symm ▸ hlength) (by omega) hobject
          · rw [requestHead_eq, ← hfirst, ← hparts, List.append_assoc,
              List.take_append_drop, ← hstream]
          · rwa [requestHead_eq, ← hfirst, ← hparts]
        · rw [hbody]
          exact .inr
            (.inl ⟨.body, .body head n hhead hpasses hlength (Nat.not_lt.mp hshort) hnone, rfl⟩)

theorem judgeHead_error (h : firstFailing (documentedChecks head) = some e) :
    judgeHead head = .error e := by
  rcases judgeHead_cases head with ⟨e', hjudge, hfails⟩ | ⟨_, _, _, hpasses, _⟩
  · rw [hjudge, Option.some.inj (hfails.symm.trans h)]
  · rw [hpasses] at h
    cases h

theorem judgeHead_ok (h : firstFailing (documentedChecks head) = none)
    (hlength : ContentLength (headerLines head) n) :
    ∃ op ∈ OPS, firstLine head = some (requestLine op) ∧ judgeHead head = .ok (op.toList, n) := by
  rcases judgeHead_cases head with ⟨e', _, hfails⟩ | ⟨op, n', hjudge, _, hop, hline, _,
    hok, hlength', _⟩
  · rw [hfails] at h
    cases h
  · have hsame := hlength'.unique hok.unique hlength
    subst hsame
    exact ⟨op, hop, hline, hjudge⟩

theorem judgeStream_unfinished (h : Unfinished stream) :
    judgeStream loads stream eof = .error (unfinished eof) := by
  unfold judgeStream
  rcases h with hnone | ⟨head, n, hhead, hpasses, hlength, hshort⟩
  · rw [hnone]
  · obtain ⟨op, -, -, hjudge⟩ := judgeHead_ok hpasses hlength
    rw [hhead]
    dsimp only
    rw [hjudge]
    dsimp only
    rw [if_pos hshort]

theorem judgeStream_refused (h : Refused loads stream e) :
    judgeStream loads stream eof = .error (.refused e) := by
  unfold judgeStream
  cases h with
  | head head _ hhead hfails =>
    rw [hhead]
    dsimp only
    rw [judgeHead_error hfails]
  | body head n hhead hpasses hlength hlong hnone =>
    obtain ⟨op, -, -, hjudge⟩ := judgeHead_ok hpasses hlength
    rw [hhead]
    dsimp only
    rw [hjudge]
    dsimp only
    rw [if_neg (by omega)]
    rcases parseBody_cases loads (head.rest.take n) with ⟨value, hobject, -⟩ | ⟨-, hbody⟩
    · exact absurd hobject (hnone value)
    · rw [hbody]

theorem judgeHead_lines {op : String} {rest : Bytes} (hop : op ∈ OPS)
    (hclean : ∀ line ∈ lines, ¬ CRLF <:+: line) (hok : HeadersOk lines)
    (hlength : ContentLength lines n) (hsmall : n ≤ MAX_BODY_BYTES) :
    judgeHead ⟨CRLF.intercalate (requestLine op :: lines) ++ HEAD_END, rest, false⟩ =
      .ok (op.toList, n) := by
  obtain ⟨hline, hheaders⟩ := head_lines rest false (requestLine_clean hop) hclean
  obtain ⟨hgrammar, htarget, -⟩ := requestLine_grammar hop
  have hpost : ascii "POST " <+: requestLine op :=
    ⟨ascii "/v1/" ++ ascii op ++ ascii " HTTP/1.1", rfl⟩
  have hsome {P : Bytes → Prop} (h : P (requestLine op)) : ∀ l,
    some (requestLine op) = some l → P l :=
    fun l heq => Option.some.inj heq ▸ h
  have hcl : ascii "content-length" ∈ lines.map headerKey := by
    obtain ⟨line, hline, hkey, -⟩ := hlength
    exact List.mem_map.mpr ⟨line, hline, hkey⟩
  generalize hhead : Head.mk (CRLF.intercalate (requestLine op :: lines) ++ HEAD_END) rest false =
    head at hline hheaders
  have hpasses : firstFailing (documentedChecks head) = none := by
    unfold documentedChecks
    rw [hline, hheaders, firstFailing_holds (hsome ⟨_, _, hgrammar, htarget⟩),
      firstFailing_holds (hsome hpost),
      firstFailing_holds (hsome ⟨op, hop, rfl⟩),
      firstFailing_holds ⟨by rw [← hhead], Option.some_ne_none _⟩,
      headerFault_eq_none_iff.mpr ⟨hok.each, hok.unique⟩]
    change firstFailing (failing _ _ :: _) = none
    rw [firstFailing_holds hok.plain, firstFailing_holds hcl, firstFailing_holds ⟨n, hlength⟩,
      firstFailing_holds ⟨n, hlength, hsmall⟩]
    rfl
  obtain ⟨op', hop', hline', hjudge⟩ := judgeHead_ok hpasses (hheaders.symm ▸ hlength)
  rw [hline] at hline'
  rw [hjudge, requestLine_inj hop hop' (Option.some.inj hline')]

theorem judgeStream_accepted {op : Text} {value : Json} (h : Accepted loads stream op value) :
    judgeStream loads stream eof = .ok ⟨op, value⟩ := by
  cases h with
  | intro op lines body more value hop hstream hfits hclean hok hlength hsmall hobject =>
    rw [requestHead_eq] at hstream hfits
    have hhead : streamHead stream =
        some ⟨CRLF.intercalate (requestLine op :: lines) ++ HEAD_END, body ++ more, false⟩ := by
      rw [hstream, List.append_assoc]
      exact streamHead_lines (requestLine_clean hop) (hok.nonempty hclean) hfits
    unfold judgeStream
    rw [hhead]
    dsimp only
    rw [judgeHead_lines hop hclean hok hlength hsmall]
    dsimp only
    rw [List.length_append, if_neg (by omega), List.take_left]
    rcases parseBody_cases loads body with ⟨value', hobject', hbody⟩ | ⟨hnone, -⟩
    · obtain ⟨text, members, htext, -, hloads, hunique⟩ := hobject
      obtain ⟨text', members', htext', -, hloads', hunique'⟩ := hobject'
      rw [hbody]
      have hsame : text = text' := by
        have hdecoded := decodeUtf8_eq_some_iff.mpr htext
        rw [decodeUtf8_eq_some_iff.mpr htext'] at hdecoded
        exact (Option.some.inj hdecoded).symm
      subst hsame
      rw [hloads] at hloads'
      have hvalues := hooked_of hunique
      rw [Option.some.inj hloads', hooked_of hunique'] at hvalues
      rw [Option.some.inj hvalues]
    · exact absurd hobject (hnone value)

theorem judgeStream_append (h : ¬ Unfinished stream) (more : Bytes) (eof' : Bool) :
    judgeStream loads (stream ++ more) eof' = judgeStream loads stream eof := by
  unfold judgeStream
  cases hhead : streamHead stream with
  | none => exact absurd (.inl hhead) h
  | some head =>
    have hmore : ∃ rest, streamHead (stream ++ more) = some ⟨head.head, rest, head.tooLong⟩ ∧
        (head.tooLong = false → rest = head.rest ++ more) := by
      cases hfind : find HEAD_END (stream.take MAX_HEADER_BYTES) with
      | none =>
        rw [streamHead_of_none hfind] at hhead
        by_cases hlong : MAX_HEADER_BYTES ≤ stream.length
        · rw [if_pos hlong] at hhead
          cases hhead
          have htake : (stream ++ more).take MAX_HEADER_BYTES = stream.take MAX_HEADER_BYTES :=
            List.take_append_of_le_length hlong
          rw [streamHead_of_none (by rw [htake, hfind]),
            if_pos (by rw [List.length_append]; omega), htake]
          exact ⟨[], rfl, fun h => Bool.noConfusion h⟩
        · rw [if_neg hlong] at hhead
          cases hhead
      | some last =>
        rw [streamHead_of_find hfind] at hhead
        cases hhead
        have hlength := find_length_le hfind
        have hfour : HEAD_END.length = 4 := rfl
        rw [List.length_take] at hlength
        have hfind' : find HEAD_END ((stream ++ more).take MAX_HEADER_BYTES) = some last := by
          rw [List.take_append]
          exact find_append hfind _
        rw [streamHead_of_find hfind', List.take_append_of_le_length (by omega),
          List.drop_append_of_le_length (by omega)]
        exact ⟨_, rfl, fun _ => rfl⟩
    obtain ⟨rest, hstream, hrest⟩ := hmore
    rw [hstream]
    dsimp only
    have hsame : judgeHead ⟨head.head, rest, head.tooLong⟩ = judgeHead head := rfl
    rw [hsame]
    rcases judgeHead_cases head with ⟨e, hjudge, -⟩ | ⟨op, n, hjudge, hpasses, -, -, hunder,
      -, hlength, -⟩
    · rw [hjudge]
    · rw [hjudge]
      dsimp only
      have hlong : ¬ head.rest.length < n :=
        fun hshort => h (.inr ⟨head, n, hhead, hpasses, hlength, hshort⟩)
      rw [hrest hunder, List.length_append, if_neg (by omega), if_neg hlong,
        List.take_append_of_le_length (by omega)]

/-- In whatever pieces a stream comes in, with or without its end, the parser returns the request of
a stream that carries one, raises the first check that fails, or stops when the stream ends first.
What comes behind makes no difference. -/
theorem request_parsing (loads : Text → Option Parsed) (r : Reader) :
    (∀ op value, readRequest loads r = .ok ⟨op, value⟩ ↔ Accepted loads r.rest op value) ∧
    (∀ e, readRequest loads r = .error (.refused e) ↔ Refused loads r.rest e) ∧
    (readRequest loads r = .error .closed ↔ r.eof = true ∧ Unfinished r.rest) ∧
    (readRequest loads r = .error .waiting ↔ r.eof = false ∧ Unfinished r.rest) ∧
    (∀ pieces, readRequest loads { r with pieces := pieces } = readRequest loads r) ∧
    (¬ Unfinished r.rest → ∀ more eof pieces,
      readRequest loads ⟨r.rest ++ more, eof, pieces⟩ = readRequest loads r) := by
  rw [readRequest_eq]
  refine ⟨fun op value => ⟨fun hresult => ?_, judgeStream_accepted⟩,
    fun e => ⟨fun hresult => ?_, judgeStream_refused⟩, ⟨fun hresult => ?_, fun ⟨heof, h⟩ => ?_⟩,
    ⟨fun hresult => ?_, fun ⟨heof, h⟩ => ?_⟩, fun pieces =>
    readRequest_eq _, fun h more eof pieces => ?_⟩
  · rcases judgeStream_cases loads r.rest r.eof with ⟨op', value', haccepted, hjudge⟩ | ⟨e, -,
      hjudge⟩ | ⟨-, hjudge⟩
    · rw [hjudge] at hresult
      cases hresult
      exact haccepted
    · rw [hjudge] at hresult
      cases hresult
    · rw [hjudge] at hresult
      cases hresult
  · rcases judgeStream_cases loads r.rest r.eof with ⟨op', value', -, hjudge⟩ | ⟨e', hrefused,
      hjudge⟩ | ⟨-, hjudge⟩
    · rw [hjudge] at hresult
      cases hresult
    · rw [hjudge] at hresult
      cases hresult
      exact hrefused
    · rw [hjudge] at hresult
      cases heof : r.eof <;> rw [heof] at hresult <;> cases hresult
  · rcases judgeStream_cases loads r.rest
      r.eof with ⟨op', value', -, hjudge⟩ | ⟨e', -, hjudge⟩ | ⟨hshort, hjudge⟩
    · rw [hjudge] at hresult
      cases hresult
    · rw [hjudge] at hresult
      cases hresult
    · rw [hjudge] at hresult
      cases heof : r.eof with
      | true => exact ⟨rfl, hshort⟩
      | false => rw [heof] at hresult; cases hresult
  · rw [judgeStream_unfinished h, heof]
    rfl
  · rcases judgeStream_cases loads r.rest
      r.eof with ⟨op', value', -, hjudge⟩ | ⟨e', -, hjudge⟩ | ⟨hshort, hjudge⟩
    · rw [hjudge] at hresult
      cases hresult
    · rw [hjudge] at hresult
      cases hresult
    · rw [hjudge] at hresult
      cases heof : r.eof with
      | true => rw [heof] at hresult; cases hresult
      | false => exact ⟨rfl, hshort⟩
  · rw [judgeStream_unfinished h, heof]
    rfl
  · rw [readRequest_eq]
    exact judgeStream_append h more eof

/-- A library that knows the empty object only. -/
def sampleLoads (text : Text) : Option Parsed :=
  if text = ['\x7b', '\x7d'] then some (.obj []) else none

/-- `GET_PEERS` with an empty object, and something behind it. -/
def sampleStream : Bytes :=
  requestHead "get_peers" [ascii "Host: a", ascii "content-length: 2"] ++ [123, 125] ++ [10]

set_option maxRecDepth 2048 in
theorem sampleStream_accepted :
    readRequest sampleLoads ⟨sampleStream, false, fun i => i % 7⟩ =
      .ok ⟨"get_peers".toList, .obj []⟩ := by
  have hok : HeadersOk [ascii "Host: a", ascii "content-length: 2"] := by
    refine ⟨?_, by decide, by decide⟩
    rw [List.forall_mem_cons, List.forall_mem_singleton]
    exact ⟨⟨by decide, by decide, by decide⟩, ⟨by decide, by decide, by decide⟩⟩
  have hlength : ContentLength [ascii "Host: a", ascii "content-length: 2"] 2 :=
    ⟨ascii "content-length: 2", by
      decide, by decide, [50], by decide, by decide, by decide, by decide⟩
  have hobject : JsonObject sampleLoads [123, 125] (.obj []) :=
    ⟨['\x7b', '\x7d'], [], by decide, rfl, rfl, by simp [KeysUnique, KeysUnique.uniqueMembers]⟩
  exact ((request_parsing sampleLoads _).1 _ _).mpr
    (.intro "get_peers" _ [123, 125] [10] _ (by decide) rfl (by decide) (by decide) hok hlength
      (by decide) hobject)

end Sangtachi.Control.Http
