import Sangtachi.ControlClient.JsonNumbers
import Sangtachi.ControlClient.JsonStrings

/-! # The round trip of the JSON text

What is parsed is well formed and is written no longer than it stood in the text; what is written
is parsed to the value it came from. -/
namespace Sangtachi.Json

open Sangtachi.BigEndian (U8)
open Sangtachi.Utf8

/-- The keys of every object are distinct, and all texts are UTF-8. -/
inductive Value.Sound : Value → Prop where
  | null : Sound .null
  | bool (b : Bool) : Sound (.bool b)
  | integer (n : Int64Value) : Sound (.integer n)
  | otherNumber : Sound .otherNumber
  | string {s : Bytes} : isValidUtf8 s = true → Sound (.string s)
  | array {items : List Value} : (∀ item ∈ items, Sound item) → Sound (.array items)
  | object {members : List (Bytes × Value)} : (members.map Prod.fst).Nodup →
      (∀ m ∈ members, isValidUtf8 m.1 = true) → (∀ m ∈ members, Sound m.2) → Sound (.object members)

/-- At most `n` arrays and objects are around any value inside, the innermost ones counted. -/
inductive Value.Nested : ℕ → Value → Prop where
  | null (n : ℕ) : Nested n .null
  | bool (n : ℕ) (b : Bool) : Nested n (.bool b)
  | integer (n : ℕ) (i : Int64Value) : Nested n (.integer i)
  | otherNumber (n : ℕ) : Nested n .otherNumber
  | string (n : ℕ) (s : Bytes) : Nested n (.string s)
  | array {n : ℕ} {items : List Value} : (∀ item ∈ items, Nested n item) →
    Nested (n + 1) (.array items)
  | object {n : ℕ} {members : List (Bytes × Value)} : (∀ m ∈ members, Nested n m.2) →
      Nested (n + 1) (.object members)

/-- No number inside lost its value. -/
inductive Value.Exact : Value → Prop where
  | null : Exact .null
  | bool (b : Bool) : Exact (.bool b)
  | integer (n : Int64Value) : Exact (.integer n)
  | string (s : Bytes) : Exact (.string s)
  | array {items : List Value} : (∀ item ∈ items, Exact item) → Exact (.array items)
  | object {members : List (Bytes × Value)} : (∀ m ∈ members, Exact m.2) → Exact (.object members)

/-! ## The writer -/

theorem writeItems_rest (depth : ℕ) (items : List Value) :
    writeItems depth false items =
      if items = [] then some [] else (writeItems depth true items).map ([comma] ++ ·) := by
  cases items with
  | nil => rfl
  | cons item items =>
    rw [if_neg (List.cons_ne_nil _ _), writeItems, writeItems]
    cases writeValue depth item with
    | none => rfl
    | some text =>
      cases writeItems depth false items with
      | none => rfl
      | some more => rfl

theorem writeMembers_rest (depth : ℕ) (members : List (Bytes × Value)) :
    writeMembers depth false members =
      if members = [] then some [] else (writeMembers depth true members).map ([comma] ++ ·) := by
  cases members with
  | nil => rfl
  | cons m members =>
    obtain ⟨key, item⟩ := m
    rw [if_neg (List.cons_ne_nil _ _), writeMembers, writeMembers]
    cases writeString key with
    | none => rfl
    | some name =>
      cases writeValue depth item with
      | none => rfl
      | some text =>
        cases writeMembers depth false members with
        | none => rfl
        | some more => rfl

theorem writeString_some {s : Bytes} (h : isValidUtf8 s = true) :
    writeString s = some ([quote] ++ s.flatMap writeByte ++ [quote]) := if_pos h

theorem writeString_valid {s text : Bytes} (h : writeString s = some text) :
    isValidUtf8 s = true ∧ text = [quote] ++ s.flatMap writeByte ++ [quote] := by
  unfold writeString at h
  split_ifs at h with hvalid
  cases h
  exact ⟨hvalid, rfl⟩

/-- Everything but a lost number can be written, as deep as the parser reads. -/
theorem writeValue_total {v : Value} (hsound : v.Sound) (hexact : v.Exact) {depth n : ℕ}
    (hnested : v.Nested n) (hdepth : depth + n ≤ maxDepth) :
    ∃ text, writeValue depth v = some text := by
  induction hsound generalizing depth n with
  | null => exact ⟨_, by rw [writeValue]⟩
  | bool b => exact ⟨_, by rw [writeValue]⟩
  | integer i => exact ⟨_, by rw [writeValue]⟩
  | otherNumber => cases hexact
  | string hvalid => exact ⟨_, by rw [writeValue, writeString_some hvalid]⟩
  | @array items _ ih =>
    cases hexact with
    | array hexact =>
      cases hnested with
      | @array n _ hnested =>
        rw [writeValue, if_neg (by omega)]
        have hall : ∀ (first : Bool) (part : List Value), (∀ item ∈ part, item ∈ items) →
            ∃ body, writeItems (depth + 1) first part = some body := by
          intro first part
          induction part generalizing first with
          | nil => exact fun _ => ⟨[], by rw [writeItems]⟩
          | cons item part ihp =>
            intro hpart
            have hitem := hpart item List.mem_cons_self
            obtain ⟨text, htext⟩ := ih item hitem (hexact item hitem)
              (hnested item hitem) (show depth + 1 + n ≤ maxDepth by omega)
            obtain ⟨more, hmore⟩ := ihp false fun x hx => hpart x (List.mem_cons_of_mem _ hx)
            exact ⟨_, by rw [writeItems, htext, hmore]; rfl⟩
        obtain ⟨body, hbody⟩ := hall true items fun _ h => h
        exact ⟨_, by rw [hbody]; rfl⟩
  | @object members _ hvalid _ ih =>
    cases hexact with
    | object hexact =>
      cases hnested with
      | @object n _ hnested =>
        rw [writeValue, if_neg (by omega)]
        have hall : ∀ (first : Bool) (part : List (Bytes × Value)), (∀ m ∈ part, m ∈ members) →
            ∃ body, writeMembers (depth + 1) first part = some body := by
          intro first part
          induction part generalizing first with
          | nil => exact fun _ => ⟨[], by rw [writeMembers]⟩
          | cons m part ihp =>
            obtain ⟨key, item⟩ := m
            intro hpart
            have hitem := hpart (key, item) List.mem_cons_self
            obtain ⟨text, htext⟩ := ih (key, item) hitem (hexact _ hitem)
              (hnested _ hitem) (show depth + 1 + n ≤ maxDepth by omega)
            obtain ⟨more, hmore⟩ := ihp false fun x hx => hpart x (List.mem_cons_of_mem _ hx)
            exact ⟨_, by rw [writeMembers, writeString_some (hvalid _ hitem), htext, hmore]; rfl⟩
        obtain ⟨body, hbody⟩ := hall true members fun _ h => h
        exact ⟨_, by rw [hbody]; rfl⟩

theorem writeValue_head {depth : ℕ} {v : Value} {text : Bytes}
    (h : writeValue depth v = some text) :
    ∃ c tail, text = c :: tail ∧ isSpace c = false ∧ c ≠ closeBracket := by
  cases v with
  | null =>
    rw [writeValue] at h
    cases h
    exact ⟨_, _, rfl, by decide, by decide⟩
  | bool b =>
    rw [writeValue] at h
    cases h
    cases b <;> exact ⟨_, _, rfl, by decide, by decide⟩
  | integer n =>
    rw [writeValue] at h
    cases h
    obtain ⟨c, tail, htext, hdigit, -⟩ := decimal_head n.1.natAbs
    unfold integerText
    split
    · exact ⟨_, _, rfl, by decide, by decide⟩
    · have hall : ∀ c : U8, isDigit c = true → isSpace c = false ∧ c ≠ closeBracket := by
        decide +kernel
      exact ⟨c, tail, htext, hall c hdigit⟩
  | otherNumber =>
    rw [writeValue] at h
    cases h
  | string s =>
    rw [writeValue] at h
    obtain ⟨-, rfl⟩ := writeString_valid h
    exact ⟨_, _, rfl, by decide, by decide⟩
  | array items =>
    rw [writeValue] at h
    split_ifs at h
    obtain ⟨body, -, rfl⟩ := Option.map_eq_some_iff.mp h
    exact ⟨_, _, rfl, by decide, by decide⟩
  | object members =>
    rw [writeValue] at h
    split_ifs at h
    obtain ⟨body, -, rfl⟩ := Option.map_eq_some_iff.mp h
    exact ⟨_, _, rfl, by decide, by decide⟩

/-! ## What is written is read -/

theorem skipWs_cons {c : U8} (h : isSpace c = false) (rest : Bytes) :
    skipWs (c :: rest) = c :: rest := by
  unfold skipWs
  rw [List.dropWhile_cons_of_neg (by simp [h])]

theorem skipWs_written {depth : ℕ} {v : Value} {text : Bytes} (h : writeValue depth v = some text)
    (rest : Bytes) :
    skipWs (text ++ rest) = text ++ rest := by
  obtain ⟨c, tail, rfl, hspace, -⟩ := writeValue_head h
  exact skipWs_cons hspace _

theorem stops_cons {c : U8} (h : c = comma ∨ c = closeBracket ∨ c = closeBrace) (rest : Bytes) :
    Stops (c :: rest) := by
  intro d hd
  cases hd
  rcases h with rfl | rfl | rfl <;> decide

/-- The parser reads the value back from what the writer makes of it, in front of anything that does
not go on with a number. -/
def Reads (v : Value) : Prop :=
  ∀ (depth rounds : ℕ) (text rest : Bytes), writeValue depth v = some text → Stops rest →
    2 * text.length ≤ rounds → parseValue rounds depth (text ++ rest) = .ok (v, rest)

theorem insert_new {members : List (Bytes × Value)} {key : Bytes} (h : key ∉ members.map Prod.fst)
    (item : Value) :
    (Value.object members).insert key item = (.object (members ++ [(key, item)]), true) := by
  have hfind : (Value.object members).find key = none := by
    unfold Value.find
    rw [Option.map_eq_none_iff, List.find?_eq_none]
    intro m hm hkey
    exact h (List.mem_map.mpr ⟨m, hm, by simpa using hkey⟩)
  unfold Value.insert
  dsimp only
  rw [hfind]

theorem parseItems_written {items : List Value} (hreads : ∀ item ∈ items, Reads item)
    (hne : items ≠ []) (rounds : ℕ) {depth : ℕ} {body : Bytes}
    (hbody : writeItems depth true items = some body)
    (hrounds : 2 * body.length + 1 ≤ rounds) (rest : Bytes) (done : List Value) :
    parseItems rounds depth (body ++ closeBracket :: rest) (.array done) =
      .ok (.array (done ++ items), rest) := by
  induction items generalizing rounds body done with
  | nil => exact absurd rfl hne
  | cons item items ih =>
    obtain ⟨rounds, rfl⟩ : ∃ r, rounds = r + 1 := ⟨rounds - 1, by omega⟩
    rw [writeItems, writeItems_rest] at hbody
    cases htext : writeValue depth item with
    | none => simp [htext] at hbody
    | some text =>
      have hitem := hreads item List.mem_cons_self depth rounds text
      have hskip := skipWs_written htext
      rw [htext] at hbody
      by_cases hlast : items = []
      · subst hlast
        have heq : body = text := by simpa using hbody.symm
        subst heq
        have hread := hitem (closeBracket :: rest) htext (stops_cons (.inr (.inl rfl)) _) (by omega)
        rw [parseItems, hskip, hread]
        dsimp only
        rw [skipWs_cons (by decide)]
        dsimp only
        rw [if_neg (by decide), if_pos rfl]
        rfl
      · rw [if_neg hlast] at hbody
        cases hmore : writeItems depth true items with
        | none => simp [hmore] at hbody
        | some more =>
          have heq : body = text ++ comma :: more := by simpa [hmore] using hbody.symm
          subst heq
          rw [List.length_append, List.length_cons] at hrounds
          have hread := hitem (comma :: (more ++ closeBracket :: rest)) htext
            (stops_cons (.inl rfl) _) (by omega)
          have hnext := ih (fun x hx => hreads x (List.mem_cons_of_mem _ hx)) hlast rounds
            hmore (by omega) (done ++ [item])
          rw [List.append_assoc, List.cons_append, parseItems, hskip, hread]
          dsimp only
          rw [skipWs_cons (by decide)]
          dsimp only
          rw [if_pos rfl]
          rw [List.append_assoc] at hnext
          exact hnext

theorem parseMembers_written {members : List (Bytes × Value)} (hreads : ∀ m ∈ members, Reads m.2)
    (hne : members ≠ []) (rounds : ℕ) {depth : ℕ} {body : Bytes}
    (hbody : writeMembers depth true members = some body) (hrounds : 2 * body.length ≤ rounds)
    (rest : Bytes) (done : List (Bytes × Value))
    (hkeys : ((done ++ members).map Prod.fst).Nodup) :
    parseMembers rounds depth (body ++ closeBrace :: rest) (.object done) =
      .ok (.object (done ++ members), rest) := by
  induction members generalizing rounds body done with
  | nil => exact absurd rfl hne
  | cons m members ih =>
    obtain ⟨key, item⟩ := m
    rw [writeMembers, writeMembers_rest] at hbody
    cases hname : writeString key with
    | none => simp [hname] at hbody
    | some name =>
      cases htext : writeValue depth item with
      | none => simp [hname, htext] at hbody
      | some text =>
        rw [hname, htext] at hbody
        have hfresh : key ∉ done.map Prod.fst := by
          rw [List.map_append, List.nodup_append] at hkeys
          intro hin
          exact hkeys.2.2 key hin key (by simp) rfl
        -- the name, the colon and the value, whatever follows
        have hmember : ∀ (rounds : ℕ) (c : U8) (tail : Bytes), 2 * text.length ≤ rounds →
          Stops (c :: tail) →
            isSpace c = false →
            parseMembers (rounds + 1) depth (name ++ colon :: (text ++ c :: tail)) (.object done) =
              if c = comma then parseMembers rounds depth tail (.object (done ++ [(key, item)]))
              else if c = closeBrace then .ok (.object (done ++ [(key, item)]), tail)
              else .error .badSyntax := by
          intro rounds c tail hle hstops hspace
          have hread : parseValue rounds depth (text ++ c :: tail) = .ok (item, c :: tail) :=
            hreads (key, item) List.mem_cons_self depth rounds text (c :: tail) htext hstops hle
          have hkey := parseString_writeString hname (colon :: (text ++ c :: tail))
          obtain ⟨name', rfl⟩ : ∃ name', name = quote :: name' := ⟨_, (writeString_valid hname).2⟩
          rw [List.cons_append] at hkey ⊢
          rw [parseMembers, skipWs_cons (by decide)]
          dsimp only
          rw [if_neg (by decide), hkey]
          dsimp only
          rw [skipWs_cons (by decide)]
          dsimp only
          rw [if_neg (by decide), skipWs_written htext, hread]
          dsimp only
          rw [insert_new hfresh]
          dsimp only
          rw [skipWs_cons hspace]
        by_cases hlast : members = []
        · subst hlast
          have heq : body = name ++ colon :: text := by simpa using hbody.symm
          subst heq
          rw [List.length_append, List.length_cons] at hrounds
          obtain ⟨rounds, rfl⟩ : ∃ r, rounds = r + 1 := ⟨rounds - 1, by omega⟩
          rw [List.append_assoc, List.cons_append,
            hmember rounds _ _ (by omega) (stops_cons (.inr (.inr rfl)) _) (by decide),
            if_neg (by decide), if_pos rfl]
        · rw [if_neg hlast] at hbody
          cases hmore : writeMembers depth true members with
          | none => simp [hmore] at hbody
          | some more =>
            have heq : body = name ++ colon :: (text ++ comma :: more) := by
              simpa [hmore] using hbody.symm
            subst heq
            rw [List.length_append, List.length_cons, List.length_append,
              List.length_cons] at hrounds
            obtain ⟨rounds, rfl⟩ : ∃ r, rounds = r + 1 := ⟨rounds - 1, by omega⟩
            have hnext := ih (fun x hx => hreads x (List.mem_cons_of_mem _ hx)) hlast rounds
              hmore (by omega) (done ++ [(key, item)]) (by rwa [List.append_assoc])
            rw [List.append_assoc, List.cons_append, List.append_assoc, List.cons_append,
              hmember rounds _ _ (by omega) (stops_cons (.inl rfl) _) (by decide), if_pos rfl]
            rw [List.append_assoc] at hnext
            exact hnext

theorem Value.Sound.reads {v : Value} (h : v.Sound) : Reads v := by
  induction h with
  | null =>
    intro depth rounds text rest hwrite _ hrounds
    rw [writeValue] at hwrite
    cases hwrite
    obtain ⟨rounds, rfl⟩ : ∃ r, rounds = r + 1 := ⟨rounds - 1, by simp [wordNull] at hrounds; omega⟩
    rfl
  | bool b =>
    intro depth rounds text rest hwrite _ hrounds
    rw [writeValue] at hwrite
    cases hwrite
    cases b
    · obtain ⟨rounds, rfl⟩ : ∃ r, rounds = r + 1 :=
        ⟨rounds - 1, by simp [wordFalse] at hrounds; omega⟩
      rfl
    · obtain ⟨rounds, rfl⟩ : ∃ r, rounds = r + 1 :=
        ⟨rounds - 1, by simp [wordTrue] at hrounds; omega⟩
      rfl
  | integer n =>
    intro depth rounds text rest hwrite hstops hrounds
    rw [writeValue] at hwrite
    cases hwrite
    have hnumber := parseNumber_integerText n hstops
    obtain ⟨c, tail, htext, hhead⟩ : ∃ c tail, integerText n = c :: tail ∧
      (isDigit c = true ∨ c = minus) := by
      obtain ⟨c, tail, htext, hdigit, -⟩ := decimal_head n.1.natAbs
      unfold integerText
      split
      · exact ⟨_, _, rfl, .inr rfl⟩
      · exact ⟨c, tail, htext, .inl hdigit⟩
    rw [htext, List.cons_append] at hnumber ⊢
    rw [htext, List.length_cons] at hrounds
    obtain ⟨rounds, rfl⟩ : ∃ r, rounds = r + 1 := ⟨rounds - 1, by omega⟩
    have hplain : ∀ c : U8, (isDigit c = true ∨ c = minus) →
      c ≠ openBrace ∧ c ≠ openBracket ∧ c ≠ quote ∧
        c ≠ 0x74 ∧ c ≠ 0x66 ∧ c ≠ 0x6E := by decide +kernel
    obtain ⟨h1, h2, h3, h4, h5, h6⟩ := hplain c hhead
    rw [parseValue, if_neg h1, if_neg h2, if_neg h3, if_neg h4, if_neg h5, if_neg h6]
    exact hnumber
  | otherNumber =>
    intro depth rounds text rest hwrite
    rw [writeValue] at hwrite
    cases hwrite
  | @string s hvalid =>
    intro depth rounds text rest hwrite _ hrounds
    rw [writeValue] at hwrite
    have hread := parseString_writeString hwrite rest
    obtain ⟨text', rfl⟩ : ∃ text', text = quote :: text' := ⟨_, (writeString_valid hwrite).2⟩
    rw [List.length_cons] at hrounds
    obtain ⟨rounds, rfl⟩ : ∃ r, rounds = r + 1 := ⟨rounds - 1, by omega⟩
    rw [List.cons_append] at hread ⊢
    rw [parseValue, if_neg (by decide), if_neg (by decide), if_pos rfl, hread]
    rfl
  | @array items _ ih =>
    intro depth rounds text rest hwrite _ hrounds
    rw [writeValue] at hwrite
    split_ifs at hwrite with hdepth
    obtain ⟨body, hbody, rfl⟩ := Option.map_eq_some_iff.mp hwrite
    rw [List.length_append, List.length_append, List.length_singleton,
      List.length_singleton] at hrounds
    obtain ⟨rounds, rfl⟩ : ∃ r, rounds = r + 1 := ⟨rounds - 1, by omega⟩
    have hsplit : [openBracket] ++ body ++ [closeBracket] ++ rest =
        openBracket :: (body ++ closeBracket :: rest) := by simp
    rw [hsplit, parseValue, if_neg (by decide), if_pos rfl, if_neg hdepth]
    by_cases hempty : items = []
    · subst hempty
      rw [writeItems] at hbody
      cases hbody
      rw [List.nil_append, skipWs_cons (by decide)]
      dsimp only
      rw [if_pos rfl]
    · have hitems := parseItems_written ih hempty rounds hbody (by omega) rest []
      cases items with
      | nil => exact absurd rfl hempty
      | cons item items =>
        obtain ⟨text, more, htext, rfl⟩ : ∃ text more, writeValue (depth + 1) item = some text ∧
            body = text ++ more := by
          rw [writeItems] at hbody
          cases htext : writeValue (depth + 1) item with
          | none => simp [htext] at hbody
          | some text =>
            rw [htext] at hbody
            obtain ⟨more, -, rfl⟩ := Option.map_eq_some_iff.mp hbody
            exact ⟨text, more, rfl, rfl⟩
        obtain ⟨c, tail, rfl, hspace, hc⟩ := writeValue_head htext
        rw [List.cons_append, List.cons_append] at hitems ⊢
        rw [skipWs_cons hspace]
        dsimp only
        rw [if_neg hc]
        exact hitems
  | @object members hkeys _ _ ih =>
    intro depth rounds text rest hwrite _ hrounds
    rw [writeValue] at hwrite
    split_ifs at hwrite with hdepth
    obtain ⟨body, hbody, rfl⟩ := Option.map_eq_some_iff.mp hwrite
    rw [List.length_append, List.length_append, List.length_singleton,
      List.length_singleton] at hrounds
    obtain ⟨rounds, rfl⟩ : ∃ r, rounds = r + 1 := ⟨rounds - 1, by omega⟩
    have hsplit : [openBrace] ++ body ++ [closeBrace] ++ rest =
        openBrace :: (body ++ closeBrace :: rest) := by simp
    rw [hsplit, parseValue, if_pos rfl, if_neg hdepth]
    by_cases hempty : members = []
    · subst hempty
      rw [writeMembers] at hbody
      cases hbody
      rw [List.nil_append, skipWs_cons (by decide)]
      dsimp only
      rw [if_pos rfl]
    · have hmembers := parseMembers_written ih hempty rounds hbody (by omega) rest []
        (by rwa [List.nil_append])
      cases members with
      | nil => exact absurd rfl hempty
      | cons m members =>
        obtain ⟨key, item⟩ := m
        obtain ⟨tail, rfl⟩ : ∃ tail, body = quote :: tail := by
          rw [writeMembers] at hbody
          cases hname : writeString key with
          | none => simp [hname] at hbody
          | some name =>
            obtain ⟨-, rfl⟩ := writeString_valid hname
            rw [hname] at hbody
            cases htext : writeValue (depth + 1) item with
            | none => simp [htext] at hbody
            | some text =>
              rw [htext] at hbody
              obtain ⟨more, -, rfl⟩ := Option.map_eq_some_iff.mp hbody
              exact ⟨_, rfl⟩
        rw [List.cons_append] at hmembers ⊢
        rw [skipWs_cons (by decide)]
        dsimp only
        rw [if_neg (by decide)]
        exact hmembers

theorem run_serialize {v : Value} (h : v.Sound) {text : Bytes}
    (hwrite : serialize v = some text) {rounds : ℕ} (hrounds : 2 * text.length ≤ rounds) :
    run rounds text = .ok v := by
  have hread := h.reads 0 rounds text [] hwrite (fun c hc => by cases hc) hrounds
  have hskip := skipWs_written hwrite []
  rw [List.append_nil] at hread hskip
  unfold run
  rw [hskip, hread]
  rfl

/-! ## What is read can be written -/

/-- What a value that was read is like, and what the writer makes of it in place of its text. -/
structure Taken (depth : ℕ) (v : Value) (rest rest' : Bytes) : Prop where
  sound : v.Sound
  nested : v.Nested (maxDepth - depth)
  shorter : rest'.length ≤ rest.length
  written : v.Exact → ∃ text, writeValue depth v = some text ∧
    text.length + rest'.length ≤ rest.length

def ValuesTaken (rounds : ℕ) : Prop :=
  ∀ {depth : ℕ} {rest rest' : Bytes} {v : Value}, depth ≤ maxDepth →
    parseValue rounds depth rest = .ok (v, rest') → Taken depth v rest rest'

def ItemsTaken (rounds : ℕ) : Prop :=
  ∀ {depth : ℕ} {rest rest' : Bytes} {done : List Value} {v : Value}, depth ≤ maxDepth →
    parseItems rounds depth rest (.array done) = .ok (v, rest') →
    ∃ items, v = .array (done ++ items) ∧
      (∀ item ∈ items, item.Sound ∧ item.Nested (maxDepth - depth)) ∧ rest'.length ≤ rest.length ∧
      ((∀ item ∈ items, item.Exact) → ∃ body, writeItems depth true items = some body ∧
        body.length + 1 + rest'.length ≤ rest.length)

def MembersTaken (rounds : ℕ) : Prop :=
  ∀ {depth : ℕ} {rest rest' : Bytes} {done : List (Bytes × Value)} {v : Value}, depth ≤ maxDepth →
    (done.map Prod.fst).Nodup → parseMembers rounds depth rest (.object done) = .ok (v, rest') →
    ∃ members, v = .object (done ++ members) ∧ ((done ++ members).map Prod.fst).Nodup ∧
      (∀ m ∈ members, isValidUtf8 m.1 = true ∧ m.2.Sound ∧ m.2.Nested (maxDepth - depth)) ∧
      rest'.length ≤ rest.length ∧
      ((∀ m ∈ members, m.2.Exact) → ∃ body, writeMembers depth true members = some body ∧
        body.length + 1 + rest'.length ≤ rest.length)

theorem skipWs_length (rest : Bytes) : (skipWs rest).length ≤ rest.length :=
  (List.dropWhile_sublist _).length_le

theorem skipWs_length_cons {rest more : Bytes} {c : U8} (h : skipWs rest = c :: more) :
    more.length + 1 ≤ rest.length := by
  have hle := skipWs_length rest
  rwa [h, List.length_cons] at hle

theorem except_map_ok {α β : Type} {f : α → β} {x : Except ParseError α} {b : β}
    (h : x.map f = .ok b) :
    ∃ a, x = .ok a ∧ f a = b := by
  cases x with
  | error e => cases h
  | ok a =>
    cases h
    exact ⟨a, rfl, rfl⟩

theorem literal_ok {word rest rest' : Bytes} (h : literal word rest = .ok rest') :
    word.length + rest'.length ≤ rest.length := by
  unfold literal at h
  split_ifs at h with hword
  cases h
  have hlength := congrArg List.length hword
  rw [List.length_take] at hlength
  rw [List.length_drop]
  omega

theorem insert_object {members : List (Bytes × Value)} {key : Bytes} {item out : Value}
    (h : (Value.object members).insert key item = (out, true)) :
    key ∉ members.map Prod.fst ∧ out = .object (members ++ [(key, item)]) := by
  by_cases hkey : key ∈ members.map Prod.fst
  · obtain ⟨m, hm, rfl⟩ := List.mem_map.mp hkey
    have hfind : ∃ found, (Value.object members).find m.1 = some found := by
      unfold Value.find
      cases hf : members.find? fun x => x.1 == m.1 with
      | none =>
        rw [List.find?_eq_none] at hf
        exact absurd (beq_self_eq_true m.1) (hf m hm)
      | some found =>
        dsimp only
        rw [hf]
        exact ⟨found.2, rfl⟩
    obtain ⟨found, hfound⟩ := hfind
    unfold Value.insert at h
    dsimp only at h
    rw [hfound] at h
    cases h
  · rw [insert_new hkey] at h
    cases h
    exact ⟨hkey, rfl⟩

theorem items_taken {rounds : ℕ} (hvalues : ValuesTaken rounds) (hitems : ItemsTaken rounds) :
    ItemsTaken (rounds + 1) := by
  intro depth rest rest' done v hdepth h
  rw [parseItems] at h
  cases hread : parseValue rounds depth (skipWs rest) with
  | error e =>
    rw [hread] at h
    cases h
  | ok found =>
    obtain ⟨item, rest₁⟩ := found
    obtain ⟨hsound, hnested, hshorter, hwritten⟩ := hvalues hdepth hread
    have hskip := skipWs_length rest
    rw [hread] at h
    dsimp only at h
    cases hnext : skipWs rest₁ with
    | nil =>
      rw [hnext] at h
      cases h
    | cons c rest₂ =>
      have hnextlen := skipWs_length_cons hnext
      rw [hnext] at h
      dsimp only at h
      split_ifs at h with hcomma hclose
      · obtain ⟨items, rfl, hall, hle, hbody⟩ := hitems hdepth h
        refine ⟨item :: items, by rw [List.append_assoc]; rfl, ?_, by omega, fun hexact => ?_⟩
        · intro x hx
          rcases List.mem_cons.mp hx with rfl | hx
          · exact ⟨hsound, hnested⟩
          · exact hall x hx
        · obtain ⟨text, htext, htextlen⟩ := hwritten (hexact item List.mem_cons_self)
          obtain ⟨body, hwrite, hbodylen⟩ := hbody fun x hx => hexact x (List.mem_cons_of_mem _ hx)
          rw [writeItems, htext, writeItems_rest, hwrite]
          by_cases hempty : items = []
          · subst hempty
            exact ⟨_, rfl, by simp only [if_true, List.nil_append, List.append_nil]; omega⟩
          · rw [if_neg hempty]
            refine ⟨_, rfl, ?_⟩
            simp only [if_true, List.nil_append, List.length_append, List.length_singleton]
            omega
      · cases h
        refine ⟨[item], rfl, ?_, by omega, fun hexact => ?_⟩
        · intro x hx
          rw [List.mem_singleton] at hx
          subst hx
          exact ⟨hsound, hnested⟩
        · obtain ⟨text, htext, htextlen⟩ := hwritten (hexact item List.mem_cons_self)
          rw [writeItems, htext, writeItems]
          refine ⟨_, rfl, ?_⟩
          simp only [if_true, List.nil_append, List.append_nil]
          omega

theorem members_taken {rounds : ℕ} (hvalues : ValuesTaken rounds) (hmembers : MembersTaken rounds) :
    MembersTaken (rounds + 1) := by
  intro depth rest rest' done v hdepth hkeys h
  rw [parseMembers] at h
  cases hfirst : skipWs rest with
  | nil =>
    rw [hfirst] at h
    cases h
  | cons c rest₁ =>
    have hfirstlen := skipWs_length_cons hfirst
    rw [hfirst] at h
    dsimp only at h
    split_ifs at h with hquote
    cases hkey : parseString (c :: rest₁) with
    | error e =>
      rw [hkey] at h
      cases h
    | ok found =>
      obtain ⟨key, rest₂⟩ := found
      obtain ⟨name, hname, hnamelen⟩ := parseString_sound hkey
      have hvalid := (writeString_valid hname).1
      rw [hkey] at h
      dsimp only at h
      cases hcolon : skipWs rest₂ with
      | nil =>
        rw [hcolon] at h
        cases h
      | cons d rest₃ =>
        have hcolonlen := skipWs_length_cons hcolon
        rw [hcolon] at h
        dsimp only at h
        split_ifs at h with hd
        cases hread : parseValue rounds depth (skipWs rest₃) with
        | error e =>
          rw [hread] at h
          cases h
        | ok found =>
          obtain ⟨item, rest₄⟩ := found
          obtain ⟨hsound, hnested, hshorter, hwritten⟩ := hvalues hdepth hread
          have hskip := skipWs_length rest₃
          rw [hread] at h
          dsimp only at h
          rcases hinsert : (Value.object done).insert key item with ⟨out, accepted⟩
          rw [hinsert] at h
          cases accepted with
          | false => cases h
          | true =>
            obtain ⟨hfresh, rfl⟩ := insert_object hinsert
            have hkeys' : ((done ++ [(key, item)]).map Prod.fst).Nodup := by
              rw [List.map_append, List.nodup_append]
              refine ⟨hkeys, by simp, ?_⟩
              intro a ha b hb hab
              rw [List.map_singleton, List.mem_singleton] at hb
              subst hb
              exact hfresh (hab ▸ ha)
            dsimp only at h
            rw [List.length_cons] at hnamelen
            cases hnext : skipWs rest₄ with
            | nil =>
              rw [hnext] at h
              cases h
            | cons e rest₅ =>
              have hnextlen := skipWs_length_cons hnext
              rw [hnext] at h
              dsimp only at h
              split_ifs at h with hcomma hclose
              · obtain ⟨members, rfl, hnodup, hall, hle, hbody⟩ := hmembers hdepth hkeys' h
                rw [List.append_assoc] at hnodup
                refine ⟨(key, item) :: members, by
                  rw [List.append_assoc]; rfl, hnodup, ?_, by omega,
                  fun hexact => ?_⟩
                · intro x hx
                  rcases List.mem_cons.mp hx with rfl | hx
                  · exact ⟨hvalid, hsound, hnested⟩
                  · exact hall x hx
                · obtain ⟨text, htext, htextlen⟩ := hwritten (hexact (key, item) List.mem_cons_self)
                  obtain ⟨body, hwrite, hbodylen⟩ :=
                    hbody fun x hx => hexact x (List.mem_cons_of_mem _ hx)
                  rw [writeMembers, hname, htext, writeMembers_rest, hwrite]
                  by_cases hempty : members = []
                  · subst hempty
                    refine ⟨_, rfl, ?_⟩
                    simp only [if_true, List.nil_append, List.append_nil, List.length_append,
                      List.length_singleton]
                    omega
                  · rw [if_neg hempty]
                    refine ⟨_, rfl, ?_⟩
                    simp only [if_true, List.nil_append, List.length_append, List.length_singleton]
                    omega
              · cases h
                refine ⟨[(key, item)], rfl, hkeys', ?_, by omega, fun hexact => ?_⟩
                · intro x hx
                  rw [List.mem_singleton] at hx
                  subst hx
                  exact ⟨hvalid, hsound, hnested⟩
                · obtain ⟨text, htext, htextlen⟩ := hwritten (hexact (key, item) List.mem_cons_self)
                  rw [writeMembers, hname, htext, writeMembers]
                  refine ⟨_, rfl, ?_⟩
                  simp only [if_true, List.nil_append, List.append_nil, List.length_append,
                    List.length_singleton]
                  omega

theorem Nested_array_deeper {depth : ℕ} {items : List Value} (hdepth : depth + 1 ≤ maxDepth)
    (h : ∀ item ∈ items, item.Nested (maxDepth - (depth + 1))) :
    (Value.array items).Nested (maxDepth - depth) := by
  have hn : maxDepth - depth = maxDepth - (depth + 1) + 1 := by omega
  rw [hn]
  exact .array h

theorem Nested_object_deeper {depth : ℕ} {members : List (Bytes × Value)}
    (hdepth : depth + 1 ≤ maxDepth) (h : ∀ m ∈ members, m.2.Nested (maxDepth - (depth + 1))) :
    (Value.object members).Nested (maxDepth - depth) := by
  have hn : maxDepth - depth = maxDepth - (depth + 1) + 1 := by omega
  rw [hn]
  exact .object h

theorem values_taken {rounds : ℕ} (hitems : ItemsTaken rounds) (hmembers : MembersTaken rounds) :
    ValuesTaken (rounds + 1) := by
  intro depth rest rest' v hdepth h
  cases rest with
  | nil =>
    rw [parseValue] at h
    cases h
  | cons c rest =>
    rw [parseValue] at h
    split_ifs at h with hbrace hdeep hbracket hdeep hquote ht hf hn
    · -- an object
      cases hskip : skipWs rest with
      | nil =>
        rw [hskip] at h
        cases h
      | cons d more =>
        have hlen := skipWs_length_cons hskip
        rw [hskip] at h
        dsimp only at h
        split_ifs at h with hclose
        · cases h
          refine ⟨.object (by simp) (by simp) (by simp), Nested_object_deeper (by omega) (by simp),
            by rw [List.length_cons]; omega, fun _ => ?_⟩
          rw [writeValue, if_neg hdeep, writeMembers]
          refine ⟨_, rfl, ?_⟩
          simp only [List.length_append, List.length_nil, List.length_cons]
          omega
        · obtain ⟨members, rfl, hkeys, hall, hle, hbody⟩ := hmembers (by omega) (by simp) h
          rw [List.nil_append] at hkeys
          rw [List.length_cons] at hle hbody
          refine ⟨.object hkeys (fun m hm => (hall m hm).1) fun m hm => (hall m hm).2.1,
            Nested_object_deeper (by omega) fun m hm => (hall m hm).2.2, by
            rw [List.length_cons]; omega,
            fun hexact => ?_⟩
          cases hexact with
          | object hexact =>
            obtain ⟨body, hwrite, hbodylen⟩ := hbody hexact
            rw [writeValue, if_neg hdeep, List.nil_append, hwrite]
            refine ⟨_, rfl, ?_⟩
            simp only [List.length_append, List.length_nil, List.length_cons]
            omega
    · -- an array
      cases hskip : skipWs rest with
      | nil =>
        rw [hskip] at h
        cases h
      | cons d more =>
        have hlen := skipWs_length_cons hskip
        rw [hskip] at h
        dsimp only at h
        split_ifs at h with hclose
        · cases h
          refine ⟨.array (by simp), Nested_array_deeper (by omega) (by simp),
            by rw [List.length_cons]; omega, fun _ => ?_⟩
          rw [writeValue, if_neg hdeep, writeItems]
          refine ⟨_, rfl, ?_⟩
          simp only [List.length_append, List.length_nil, List.length_cons]
          omega
        · obtain ⟨items, rfl, hall, hle, hbody⟩ := hitems (by omega) h
          rw [List.length_cons] at hle hbody
          refine ⟨.array fun x hx => (hall x hx).1,
            Nested_array_deeper (by omega) fun x hx => (hall x hx).2,
            by rw [List.length_cons]; omega, fun hexact => ?_⟩
          cases hexact with
          | array hexact =>
            obtain ⟨body, hwrite, hbodylen⟩ := hbody hexact
            rw [writeValue, if_neg hdeep, List.nil_append, hwrite]
            refine ⟨_, rfl, ?_⟩
            simp only [List.length_append, List.length_nil, List.length_cons]
            omega
    · obtain ⟨⟨s, more⟩, hread, heq⟩ := except_map_ok h
      cases heq
      obtain ⟨text, hwrite, hlen⟩ := parseString_sound hread
      dsimp only at hlen ⊢
      refine ⟨.string (writeString_valid hwrite).1, .string _ _, by
        omega, fun _ => ⟨text, ?_, hlen⟩⟩
      rw [writeValue, hwrite]
    · obtain ⟨more, hread, heq⟩ := except_map_ok h
      cases heq
      have hlen := literal_ok hread
      exact ⟨.bool _, .bool _ _, by omega, fun _ => ⟨wordTrue, by rw [writeValue]; rfl, hlen⟩⟩
    · obtain ⟨more, hread, heq⟩ := except_map_ok h
      cases heq
      have hlen := literal_ok hread
      exact ⟨.bool _, .bool _ _, by omega, fun _ => ⟨wordFalse, by rw [writeValue]; rfl, hlen⟩⟩
    · obtain ⟨more, hread, heq⟩ := except_map_ok h
      cases heq
      have hlen := literal_ok hread
      exact ⟨.null, .null _, by omega, fun _ => ⟨wordNull, by rw [writeValue], hlen⟩⟩
    · rcases parseNumber_sound h with ⟨rfl, hlen⟩ | ⟨n, rfl, hlen⟩
      · refine ⟨.otherNumber, .otherNumber _, hlen, fun hexact => ?_⟩
        cases hexact
      · exact ⟨.integer n, .integer _ n, by
          omega, fun _ => ⟨integerText n, by rw [writeValue], hlen⟩⟩

theorem taken (rounds : ℕ) : ValuesTaken rounds ∧ ItemsTaken rounds ∧ MembersTaken rounds := by
  induction rounds with
  | zero =>
    refine ⟨?_, ?_, ?_⟩
    · intro depth rest rest' v _ h
      rw [parseValue] at h
      cases h
    · intro depth rest rest' done v _ h
      rw [parseItems] at h
      cases h
    · intro depth rest rest' done v _ _ h
      rw [parseMembers] at h
      cases h
  | succ rounds ih =>
    obtain ⟨hvalues, hitems, hmembers⟩ := ih
    exact ⟨values_taken hitems hmembers, items_taken hvalues hitems, members_taken hvalues hmembers⟩

/-! ## Termination

A round is a call of `parse_value` or a turn of one of the two loops. The text bounds how many there
are, so that more of them change nothing. -/

def ValuesEnd (rounds : ℕ) : Prop :=
  ∀ (rounds' : ℕ) {depth : ℕ} {rest : Bytes}, depth ≤ maxDepth → 2 * rest.length ≤ rounds →
    2 * rest.length ≤ rounds' → parseValue rounds depth rest = parseValue rounds' depth rest

def ItemsEnd (rounds : ℕ) : Prop :=
  ∀ (rounds' : ℕ) {depth : ℕ} {rest : Bytes} (out : Value), depth ≤ maxDepth →
    2 * rest.length + 1 ≤ rounds →
    2 * rest.length + 1 ≤ rounds' →
    parseItems rounds depth rest out = parseItems rounds' depth rest out

def MembersEnd (rounds : ℕ) : Prop :=
  ∀ (rounds' : ℕ) {depth : ℕ} {rest : Bytes} (out : Value), depth ≤ maxDepth →
    2 * rest.length ≤ rounds →
    2 * rest.length ≤ rounds' →
    parseMembers rounds depth rest out = parseMembers rounds' depth rest out

theorem values_end {rounds : ℕ} (hitems : ItemsEnd rounds) (hmembers : MembersEnd rounds) :
    ValuesEnd (rounds + 1) := by
  intro rounds' depth rest hdepth h h'
  cases rest with
  | nil => cases rounds' <;> rw [parseValue, parseValue]
  | cons c rest =>
    rw [List.length_cons] at h h'
    obtain ⟨rounds', rfl⟩ : ∃ r, rounds' = r + 1 := ⟨rounds' - 1, by omega⟩
    rw [parseValue, parseValue]
    by_cases hdeep : maxDepth < depth + 1
    · simp only [if_pos hdeep]
    · cases hskip : skipWs rest with
      | nil => rfl
      | cons d more =>
        have hlen := skipWs_length_cons hskip
        dsimp only
        rw [hitems rounds' _ (by omega) (by rw [List.length_cons]; omega)
            (by rw [List.length_cons]; omega),
          hmembers rounds' _ (by omega) (by rw [List.length_cons]; omega)
            (by rw [List.length_cons]; omega)]

theorem items_end {rounds : ℕ} (hvalues : ValuesEnd rounds) (hitems : ItemsEnd rounds) :
    ItemsEnd (rounds + 1) := by
  intro rounds' depth rest out hdepth h h'
  obtain ⟨rounds', rfl⟩ : ∃ r, rounds' = r + 1 := ⟨rounds' - 1, by omega⟩
  have hskip := skipWs_length rest
  rw [parseItems, parseItems, hvalues rounds' hdepth (by omega) (by omega)]
  cases hread : parseValue rounds' depth (skipWs rest) with
  | error e => rfl
  | ok found =>
    obtain ⟨item, rest₁⟩ := found
    have hshorter := ((taken rounds').1 hdepth hread).shorter
    dsimp only
    cases hnext : skipWs rest₁ with
    | nil => rfl
    | cons c rest₂ =>
      have hlen := skipWs_length_cons hnext
      dsimp only
      rw [hitems rounds' _ hdepth (by omega) (by omega)]

theorem members_end {rounds : ℕ} (hvalues : ValuesEnd rounds) (hmembers : MembersEnd rounds) :
    MembersEnd (rounds + 1) := by
  intro rounds' depth rest out hdepth h h'
  cases hfirst : skipWs rest with
  | nil =>
    rw [parseMembers, hfirst]
    cases rounds' with
    | zero => rw [parseMembers]
    | succ rounds' => rw [parseMembers, hfirst]
  | cons c rest₁ =>
    have hfirstlen := skipWs_length_cons hfirst
    obtain ⟨rounds', rfl⟩ : ∃ r, rounds' = r + 1 := ⟨rounds' - 1, by omega⟩
    rw [parseMembers, parseMembers, hfirst]
    dsimp only
    by_cases hquote : c ≠ quote
    · rw [if_pos hquote, if_pos hquote]
    · rw [if_neg hquote, if_neg hquote]
      cases hkey : parseString (c :: rest₁) with
      | error e => rfl
      | ok found =>
        obtain ⟨key, rest₂⟩ := found
        obtain ⟨name, -, hname⟩ := parseString_sound hkey
        rw [List.length_cons] at hname
        dsimp only
        cases hcolon : skipWs rest₂ with
        | nil => rfl
        | cons d rest₃ =>
          have hcolonlen := skipWs_length_cons hcolon
          have hskip := skipWs_length rest₃
          dsimp only
          rw [hvalues rounds' hdepth (by omega) (by omega)]
          cases hread : parseValue rounds' depth (skipWs rest₃) with
          | error e => rfl
          | ok found =>
            obtain ⟨item, rest₄⟩ := found
            have hshorter := ((taken rounds').1 hdepth hread).shorter
            dsimp only
            cases hnext : skipWs rest₄ with
            | nil => rfl
            | cons e rest₅ =>
              have hnextlen := skipWs_length_cons hnext
              dsimp only
              have hloop : ∀ out,
                parseMembers rounds depth rest₅ out = parseMembers rounds' depth rest₅ out :=
                fun out => hmembers rounds' out hdepth (by omega) (by omega)
              simp only [hloop]

theorem ends (rounds : ℕ) : ValuesEnd rounds ∧ ItemsEnd rounds ∧ MembersEnd rounds := by
  induction rounds with
  | zero =>
    refine ⟨?_, fun rounds' _ _ out hdepth h => absurd h (by omega), ?_⟩
    · intro rounds' depth rest _ h _
      have hnil : rest = [] := List.length_eq_zero_iff.mp (by omega)
      subst hnil
      cases rounds' with
      | zero => rfl
      | succ rounds' => rw [parseValue, parseValue]
    · intro rounds' depth rest out _ h _
      have hnil : rest = [] := List.length_eq_zero_iff.mp (by omega)
      subst hnil
      cases rounds' with
      | zero => rfl
      | succ rounds' =>
        rw [parseMembers, parseMembers]
        rfl
  | succ rounds ih =>
    obtain ⟨hvalues, hitems, hmembers⟩ := ih
    exact ⟨values_end hitems hmembers, items_end hvalues hitems, members_end hvalues hmembers⟩

theorem run_rounds {text : Bytes} {rounds : ℕ} (h : 2 * text.length ≤ rounds) :
    run rounds text = run (2 * text.length) text := by
  have hskip := skipWs_length text
  unfold run
  rw [(ends rounds).1 (2 * text.length) (Nat.zero_le _) (by omega) (by omega)]

theorem run_sound {text : Bytes} {rounds : ℕ} {v : Value} (h : run rounds text = .ok v) :
    v.Sound ∧ v.Nested maxDepth ∧
      (v.Exact → ∃ s, serialize v = some s ∧ s.length ≤ text.length) := by
  unfold run at h
  cases hread : parseValue rounds 0 (skipWs text) with
  | error e =>
    rw [hread] at h
    cases h
  | ok found =>
    obtain ⟨v', rest⟩ := found
    rw [hread] at h
    dsimp only at h
    split_ifs at h
    cases h
    obtain ⟨hsound, hnested, -, hwritten⟩ := (taken rounds).1 (Nat.zero_le _) hread
    refine ⟨hsound, hnested, fun hexact => ?_⟩
    obtain ⟨s, hs, hlen⟩ := hwritten hexact
    have hskip := skipWs_length text
    exact ⟨s, hs, by omega⟩

/-! ## Values built by hand -/

/-- Built with `insert` and `push_back`. -/
inductive Value.Built : Value → Prop where
  | null : Built .null
  | bool (b : Bool) : Built (.bool b)
  | integer (n : Int64Value) : Built (.integer n)
  | string {s : Bytes} : isValidUtf8 s = true → Built (.string s)
  | array : Built (.array [])
  | object : Built (.object [])
  | pushBack {v item : Value} : Built v → Built item → Built (v.pushBack item).1
  | insert {v item : Value} {key : Bytes} : Built v → isValidUtf8 key = true → Built item →
      Built (v.insert key item).1

theorem Value.Built.sound {v : Value} (h : v.Built) : v.Sound ∧ v.Exact := by
  induction h with
  | null => exact ⟨.null, .null⟩
  | bool b => exact ⟨.bool b, .bool b⟩
  | integer n => exact ⟨.integer n, .integer n⟩
  | string hvalid => exact ⟨.string hvalid, .string _⟩
  | array => exact ⟨.array (by simp), .array (by simp)⟩
  | object => exact ⟨.object (by simp) (by simp) (by simp), .object (by simp)⟩
  | @pushBack v item _ _ ihv ih =>
    cases v with
    | array items =>
      obtain ⟨hsound, hexact⟩ := ihv
      cases hsound with
      | array hsound =>
        cases hexact with
        | array hexact =>
          refine ⟨.array fun x hx => ?_, .array fun x hx => ?_⟩
          · rcases List.mem_append.mp hx with hx | hx
            · exact hsound x hx
            · exact List.mem_singleton.mp hx ▸ ih.1
          · rcases List.mem_append.mp hx with hx | hx
            · exact hexact x hx
            · exact List.mem_singleton.mp hx ▸ ih.2
    | _ => exact ihv
  | @insert v item key _ hkey _ ihv ih =>
    cases v with
    | object members =>
      rcases hinsert : (Value.object members).insert key item with ⟨out, accepted⟩
      cases accepted with
      | false =>
        unfold Value.insert at hinsert
        dsimp only at hinsert
        cases hfind : (Value.object members).find key with
        | none =>
          rw [hfind] at hinsert
          cases hinsert
        | some found =>
          rw [hfind] at hinsert
          cases hinsert
          exact ihv
      | true =>
        obtain ⟨hfresh, rfl⟩ := insert_object hinsert
        obtain ⟨hsound, hexact⟩ := ihv
        cases hsound with
        | object hkeys hvalid hsound =>
          cases hexact with
          | object hexact =>
            have hone : ∀ m ∈ members ++ [(key, item)], m ∈ members ∨ m = (key, item) := by simp
            refine ⟨.object ?_ (fun m hm => ?_) fun m hm => ?_, .object fun m hm => ?_⟩
            · rw [List.map_append, List.nodup_append]
              refine ⟨hkeys, by simp, ?_⟩
              intro a ha b hb hab
              rw [List.map_singleton, List.mem_singleton] at hb
              subst hb
              exact hfresh (hab ▸ ha)
            · rcases hone m hm with hm | rfl
              · exact hvalid m hm
              · exact hkey
            · rcases hone m hm with hm | rfl
              · exact hsound m hm
              · exact ih.1
            · rcases hone m hm with hm | rfl
              · exact hexact m hm
              · exact ih.2
    | _ => exact ihv

theorem parse_serialize {v : Value} (h : v.Sound) {s : Bytes} (hwrite : serialize v = some s)
    (hfits : s.length ≤ maxBodyBytes) : parse s = .ok v := by
  unfold parse
  rw [if_neg (by omega)]
  exact run_serialize h hwrite (Nat.le_refl _)

/-- Parsing ends, what it accepts is well formed and no longer when written, and writing and parsing
are inverse to each other. -/
theorem json_round_trip :
    (∀ text : Bytes, text.length ≤ maxBodyBytes →
      (∀ rounds, 2 * text.length ≤ rounds → run rounds text = parse text) ∧
      ∀ v, parse text = .ok v → v.Sound ∧ v.Nested maxDepth ∧
        (v.Exact → ∃ s, serialize v = some s ∧ s.length ≤ text.length ∧ parse s = .ok v)) ∧
    ∀ v : Value, v.Built → v.Nested maxDepth →
      ∃ s, serialize v = some s ∧ (s.length ≤ maxBodyBytes → parse s = .ok v) := by
  constructor
  · intro text hfits
    have hparse : parse text = run (2 * text.length) text := by
      unfold parse
      rw [if_neg (by omega)]
    refine ⟨fun rounds hrounds => ?_, fun v h => ?_⟩
    · rw [hparse]
      exact run_rounds hrounds
    · rw [hparse] at h
      obtain ⟨hsound, hnested, hwritten⟩ := run_sound h
      refine ⟨hsound, hnested, fun hexact => ?_⟩
      obtain ⟨s, hs, hlen⟩ := hwritten hexact
      exact ⟨s, hs, hlen, parse_serialize hsound hs (by omega)⟩
  · intro v hbuilt hnested
    obtain ⟨hsound, hexact⟩ := hbuilt.sound
    obtain ⟨s, hs⟩ : ∃ s, serialize v = some s :=
      writeValue_total hsound hexact hnested (Nat.le_of_eq (Nat.zero_add _))
    exact ⟨s, hs, parse_serialize hsound hs⟩

def sampleValue : Value :=
  ((Value.object []).insert [0x61] ((Value.array []).pushBack (.bool true)).1).1

theorem sampleValue_round_trip :
    serialize sampleValue =
      some [0x7B, 0x22, 0x61, 0x22, 0x3A, 0x5B, 0x74, 0x72, 0x75, 0x65, 0x5D, 0x7D] ∧
      parse [0x7B, 0x22, 0x61, 0x22, 0x3A, 0x5B, 0x74, 0x72, 0x75, 0x65, 0x5D, 0x7D] =
        .ok sampleValue := by
  have hbuilt : sampleValue.Built :=
    .insert .object (by decide) (.pushBack .array (.bool true))
  have hnested : sampleValue.Nested maxDepth := by
    refine .object fun m hm => ?_
    rw [List.mem_singleton.mp hm]
    exact .array fun item hitem => List.mem_singleton.mp hitem ▸ .bool _ true
  have hwrite : serialize sampleValue =
      some [0x7B, 0x22, 0x61, 0x22, 0x3A, 0x5B, 0x74, 0x72, 0x75, 0x65, 0x5D, 0x7D] := by
    decide +kernel
  obtain ⟨s, hs, hparse⟩ := json_round_trip.2 sampleValue hbuilt hnested
  rw [hwrite] at hs
  cases hs
  exact ⟨hwrite, hparse (by decide)⟩

end Sangtachi.Json
