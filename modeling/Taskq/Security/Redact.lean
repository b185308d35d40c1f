import Taskq.Lib.Scrub
import Taskq.Lib.Unicode

/-!
# Taskq.Security.Redact

`redact_text` (`security/redact.py`): four patterns, one after the other, each replaced
by the marker wherever it matches.

In none of the four does a repetition share a symbol with what follows it, so nothing is
ever given back while matching, and `Scrub.Pattern` says the same as the expression. What
Unicode counts as alphanumeric is a parameter; only the `\b` of the last pattern asks.
-/

namespace Taskq.Redact

open Scrub Unicode

/-! ### Classes -/

/-- `[A-Za-z0-9]`. -/
def isAsciiAlnum (c : CodePoint) : Bool :=
  (48 ≤ c.val && c.val ≤ 57) || (65 ≤ c.val && c.val ≤ 90) || (97 ≤ c.val && c.val ≤ 122)

/-- `\s`, which is `str.isspace`. -/
def isSpace (c : CodePoint) : Bool :=
  (9 ≤ c.val && c.val ≤ 13) || (28 ≤ c.val && c.val ≤ 32) || c.val = 0x85 || c.val = 0xA0 ||
    c.val = 0x1680 || (0x2000 ≤ c.val && c.val ≤ 0x200A) || c.val = 0x2028 || c.val = 0x2029 ||
    c.val = 0x202F || c.val = 0x205F || c.val = 0x3000

/-- One of these characters. -/
def isOneOf (cs : List Char) (c : CodePoint) : Bool := cs.any fun d => c = CodePoint.ofChar d

/-- `[A-Za-z0-9_-]`. -/
def isKeyChar (c : CodePoint) : Bool := isAsciiAlnum c || isOneOf ['_', '-'] c

/-- `[A-Za-z0-9._\-]`. -/
def isTokenChar (c : CodePoint) : Bool := isAsciiAlnum c || isOneOf ['.', '_', '-'] c

/-- `"'<>`. -/
def isQuote (c : CodePoint) : Bool := isOneOf ['"', '\'', '<', '>'] c

/-- `[^\s"'<>]`. -/
def isUrlChar (c : CodePoint) : Bool := !isSpace c && !isQuote c

/-- The character database. -/
structure CharacterData where
  /-- `str.isalnum` of one code point. -/
  isAlnum : CodePoint → Bool
  ascii : ∀ c : CodePoint, c.val < 0x80 → isAlnum c = isAsciiAlnum c

/-- ASCII only. -/
def asciiData : CharacterData := ⟨isAsciiAlnum, fun _ _ => rfl⟩

/-- `\w`. -/
def CharacterData.isWord (data : CharacterData) (c : CodePoint) : Bool :=
  data.isAlnum c || isOneOf ['_'] c

/-! ### The patterns -/

def literal (cs : List Char) : List (Item CodePoint) := cs.map fun c => .one (isOneOf [c])

/-- A letter under `(?i)`; the long s folds to `s`. -/
def anyCase (c : Char) (d : CodePoint) : Bool :=
  isOneOf [c, c.toUpper] d || (c = 's' && d.val = 0x17F)

/-- `sk-[A-Za-z0-9_-]{8,}`. -/
def apiKey : Pattern CodePoint where
  start _ := true
  first := isOneOf ['s']
  heads := [literal ['k', '-']]
  body := isKeyChar
  least := 8

/-- `Bearer\s+[A-Za-z0-9._\-]{8,}`. -/
def bearer : Pattern CodePoint where
  start _ := true
  first := isOneOf ['B']
  heads := [literal ['e', 'a', 'r', 'e', 'r'] ++ [.many isSpace 1]]
  body := isTokenChar
  least := 8

/-- `postgres(?:ql)?://[^\s"'<>]+`. -/
def dsn : Pattern CodePoint where
  start _ := true
  first := isOneOf ['p']
  heads :=
    [literal ['o', 's', 't', 'g', 'r', 'e', 's', 'q', 'l', ':', '/', '/'],
      literal ['o', 's', 't', 'g', 'r', 'e', 's', ':', '/', '/']]
  body := isUrlChar
  least := 1

/-- `(?i)\bpassword\s*=\s*[^\s"'<>]+`. -/
def password (data : CharacterData) : Pattern CodePoint where
  start prev := !prev.any data.isWord
  first := anyCase 'p'
  heads :=
    [['a', 's', 's', 'w', 'o', 'r', 'd'].map (fun c => .one (anyCase c)) ++
      [.many isSpace 0] ++ literal ['='] ++ [.many isSpace 0]]
  body := isUrlChar
  least := 1

/-- `_PATTERNS`. -/
def patterns (data : CharacterData) : List (Pattern CodePoint) :=
  [apiKey, bearer, dsn, password data]

/-- `_REDACTION_MARKER`. -/
def redactionMarker : PyStr :=
  PyStr.ofChars ['[', 'R', 'E', 'D', 'A', 'C', 'T', 'E', 'D', ']']

/-- `redact_text`. -/
def redactText (data : CharacterData) (value : PyStr) : PyStr :=
  if value = [] then []
  else (patterns data).foldl (fun value pattern => pattern.sub redactionMarker value) value

/-! ### The passes -/

theorem apiKey_mem (data : CharacterData) : apiKey ∈ patterns data := by simp [patterns]

theorem bearer_mem (data : CharacterData) : bearer ∈ patterns data := by simp [patterns]

theorem dsn_mem (data : CharacterData) : dsn ∈ patterns data := by simp [patterns]

theorem password_mem (data : CharacterData) : password data ∈ patterns data := by simp [patterns]

theorem mem_patterns {data : CharacterData} {p : Pattern CodePoint} (hp : p ∈ patterns data) :
    p = apiKey ∨ p = bearer ∨ p = dsn ∨ p = password data := by
  simpa [patterns] using hp

theorem redactText_eq (data : CharacterData) (text : PyStr) :
    redactText data text =
      (password data).sub redactionMarker (dsn.sub redactionMarker
        (bearer.sub redactionMarker (apiKey.sub redactionMarker text))) := by
  cases text with
  | nil => rfl
  | cons c text => rfl

theorem redactText_foldl (data : CharacterData) (text : PyStr) :
    redactText data text =
      (patterns data).foldl (fun value p => p.sub redactionMarker value) text := by
  cases text with
  | nil => rfl
  | cons c text => rfl

/-! ### Prefixes -/

theorem exists_of_isOneOf {cs : List Char} {c : CodePoint} (h : isOneOf cs c) :
    ∃ d ∈ cs, c = CodePoint.ofChar d := by
  obtain ⟨d, hd, heq⟩ := List.any_eq_true.mp h
  exact ⟨d, hd, of_decide_eq_true heq⟩

theorem eq_of_isOneOf {a : Char} {c : CodePoint} (h : isOneOf [a] c) : c = CodePoint.ofChar a := by
  obtain ⟨d, hd, rfl⟩ := exists_of_isOneOf h
  rw [List.mem_singleton.mp hd]

theorem strip_literal {cs : List Char} {w r : PyStr} (h : strip (literal cs) w = some r) :
    w = PyStr.ofChars cs ++ r := by
  induction cs generalizing w with
  | nil => simpa [literal, strip, PyStr.ofChars] using h
  | cons c cs ih =>
      cases w with
      | nil => simp [literal, strip] at h
      | cons d w =>
          simp only [literal, List.map_cons, strip] at h
          split_ifs at h with hd
          rw [eq_of_isOneOf hd, ih h]
          rfl

/-- The two prefixes of a connection string. -/
theorem dsn_opens {s r : PyStr} (h : dsn.Opens s r) :
    s = PyStr.ofChars ['p', 'o', 's', 't', 'g', 'r', 'e', 's', 'q', 'l', ':', '/', '/'] ++ r ∨
      s = PyStr.ofChars ['p', 'o', 's', 't', 'g', 'r', 'e', 's', ':', '/', '/'] ++ r := by
  obtain ⟨c, w, rfl, hfirst, head, hhead, hstrip⟩ := h
  rw [eq_of_isOneOf hfirst]
  simp only [dsn, List.mem_cons, List.not_mem_nil, or_false] at hhead
  rcases hhead with rfl | rfl
  · rw [strip_literal hstrip]
    exact Or.inl rfl
  · rw [strip_literal hstrip]
    exact Or.inr rfl

theorem dsn_opens_unique {s r r' : PyStr} (h : dsn.Opens s r) (h' : dsn.Opens s r') : r = r' := by
  rcases dsn_opens h with rfl | rfl <;> rcases dsn_opens h' with heq | heq
  · exact List.append_cancel_left heq
  · simp [PyStr.ofChars, CodePoint.ofChar] at heq
  · simp [PyStr.ofChars, CodePoint.ofChar] at heq
  · exact List.append_cancel_left heq

/-! ### Which characters a match can begin with -/

/-- `s`, `B`, `p` and `P`. -/
def firsts : PyStr := PyStr.ofChars ['s', 'B', 'p', 'P']

theorem first_mem {data : CharacterData} {p : Pattern CodePoint} (hp : p ∈ patterns data)
    {c : CodePoint} (hc : p.first c) : c ∈ firsts := by
  have hone : isOneOf ['s', 'B', 'p', 'P'] c := by
    rcases mem_patterns hp with rfl | rfl | rfl | rfl
    all_goals
      simp [apiKey, bearer, dsn, password, anyCase, isOneOf] at hc ⊢
      tauto
  obtain ⟨d, hd, rfl⟩ := exists_of_isOneOf hone
  exact List.mem_map_of_mem hd

theorem not_first {data : CharacterData} {p : Pattern CodePoint} (hp : p ∈ patterns data)
    {c : CodePoint} (hc : c ∉ firsts) : p.first c = false :=
  Bool.eq_false_iff.mpr fun hone => hc (first_mem hp hone)

theorem marker_all : redactionMarker.all fun c => !firsts.contains c := by decide

theorem first_marker {data : CharacterData} {p : Pattern CodePoint} (hp : p ∈ patterns data) :
    ∀ c ∈ redactionMarker, p.first c = false := by
  intro c hmem
  exact not_first hp (by simpa using List.all_eq_true.mp marker_all c hmem)

theorem marker_ne_nil : redactionMarker ≠ [] := by decide

/-- The marker begins with a bracket. -/
theorem marker_head {p : Pattern CodePoint} (h : p.body (CodePoint.ofChar '[') = false) :
    ∀ c ∈ redactionMarker.head?, p.body c = false := by
  intro c hc
  obtain rfl : _ = c := Option.some.inj hc
  exact h

/-! ### Texts in which no match begins -/

variable {data : CharacterData}

/-- No match of `p` begins in the word, whatever comes behind. -/
def Silent (p : Pattern CodePoint) (word : PyStr) : Prop :=
  ∀ w, ∀ i < word.length, ∀ prev, p.find? prev ((word ++ w).drop i) = none

/-- No match of any of them. -/
def Quiet (data : CharacterData) (v : PyStr) : Prop := ∀ p ∈ patterns data, Silent p v

/-- It stays. -/
theorem foldl_quiet {ps : List (Pattern CodePoint)} {v w : PyStr} (hv : Quiet data v)
    (hps : ∀ p ∈ ps, p ∈ patterns data) :
    ∃ w', ps.foldl (fun value p => p.sub redactionMarker value) (v ++ w) = v ++ w' := by
  induction ps generalizing w with
  | nil => exact ⟨w, rfl⟩
  | cons p ps ih =>
      have hp := hps p List.mem_cons_self
      obtain ⟨q, hscan⟩ : ∃ q, Scan p redactionMarker none (v ++ w) _ q [] := scan_scrub none _
      obtain ⟨-, w', hout, -⟩ := hscan.word_stays (hv p hp w)
      rw [List.foldl_cons, Pattern.sub, hout]
      exact ih fun p' hp' => hps p' (List.mem_cons_of_mem p hp')

/-! ### Keys -/

/-- `sk-`. -/
def keyPrefix : PyStr := PyStr.ofChars ['s', 'k', '-']

theorem apiKey_find? {prev : Option CodePoint} {w r : PyStr} :
    apiKey.find? prev w = some r ↔ w = keyPrefix ++ r ∧ apiKey.Runs r := by
  have hopens : ∀ {w r : PyStr}, apiKey.Opens w r ↔ w = keyPrefix ++ r := by
    intro w r
    constructor
    · intro hopens
      obtain ⟨c, w, rfl, hfirst, head, hhead, hstrip⟩ := hopens
      rw [List.mem_singleton.mp hhead] at hstrip
      rw [eq_of_isOneOf hfirst, strip_literal hstrip]
      rfl
    · intro heq
      subst heq
      exact ⟨_, _, rfl, rfl, _, List.mem_singleton_self _, rfl⟩
  constructor
  · intro h
    obtain ⟨-, -, -, -, -, hruns, -⟩ := Pattern.find?_some h
    exact ⟨hopens.mp (Pattern.opens_of_find? h), hruns⟩
  · intro hboth
    obtain ⟨rfl, hruns⟩ := hboth
    have hfound : apiKey.find? prev (keyPrefix ++ r) ≠ none :=
      (hopens.mpr rfl).find?_ne_none rfl hruns
    obtain ⟨r', hr'⟩ := Option.ne_none_iff_exists'.mp hfound
    rw [hr', List.append_cancel_left (hopens.mp (Pattern.opens_of_find? hr'))]

theorem hits_key {prev : Option CodePoint} {run rest : PyStr} (hrun : ∀ c ∈ run, isKeyChar c)
    (hleast : 8 ≤ run.length) (hrest : ∀ c ∈ rest.head?, isKeyChar c = false) :
    apiKey.Hits prev (keyPrefix ++ run) rest := by
  refine ⟨run ++ rest, ?_, dropWhile_append_of_head hrun hrest⟩
  rw [List.append_assoc]
  exact apiKey_find?.mpr ⟨rfl, Pattern.runs_append hrun hleast rest⟩

/-- No key begins right before another one but does not reach it. -/
theorem not_straddling {x w r : PyStr} (h : x ++ (keyPrefix ++ w) = keyPrefix ++ r) (hx : x ≠ []) :
    keyPrefix <+: x := by
  rcases List.append_eq_append_iff.mp h with ⟨a, ha, haw⟩ | ⟨a, ha, -⟩
  · cases a with
    | nil => exact ⟨[], by rw [ha]; simp⟩
    | cons d a =>
        have hd : d = CodePoint.ofChar 's' := (List.cons.inj haw).1.symm
        obtain ⟨c, x, rfl⟩ := List.exists_cons_of_ne_nil hx
        have hmem : d ∈ keyPrefix.tail := by
          rw [ha]
          exact List.mem_append_right x List.mem_cons_self
        rw [hd] at hmem
        exact absurd hmem (by decide)
  · exact ⟨a, ha.symm⟩

theorem key_all : keyPrefix.all isKeyChar := by decide

end Taskq.Redact
