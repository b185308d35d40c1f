import Taskq.Models
import Taskq.Security.Front

/-!
# Taskq.Service.Tail

`_decode` (`service/runner.py`): what a process has written, decoded, cut to its last 8000
characters, and only then redacted.

Two streams that differ in the body of one secret are compared. The cut comes to the same
place in both; when it comes inside the secret, what is behind it is no match any more, and
neither is what a match from before the secret leaves of its prefix.
-/

namespace Taskq.Tail

open Scrub Unicode Redact

/-- `TAIL_LIMIT`. -/
def tailLimit : ℕ := 8000

/-- `_decode`. -/
def decode (data : CharacterData) : Option (List Byte) → PyStr
  | none => []
  | some [] => []
  | some stream =>
      let text := decodeReplace stream
      redactText data
        (if tailLimit < text.length then text.drop (text.length - tailLimit) else text)

variable {data : CharacterData}

theorem decode_eq (stream : List Byte) :
    decode data (some stream) =
      redactText data
        ((decodeReplace stream).drop ((decodeReplace stream).length - tailLimit)) := by
  cases stream with
  | nil => rfl
  | cons b stream =>
      simp only [decode]
      split_ifs with hlong
      · rfl
      · rw [Nat.sub_eq_zero_of_le (Nat.le_of_not_lt hlong), List.drop_zero]

/-! ### What the column holds -/

/-- **A tail fits its column**: no match is shorter than the marker, so no pass makes the text
longer than the cut has left it. -/
theorem decode_fits_column (data : CharacterData) (stream : Option (List Byte)) :
    (decode data stream).length ≤ tailLimit ∧ tailLimit = tailWidth ∧
      (∀ p ∈ patterns data, ∀ prev hit w,
        p.Hits prev hit w → redactionMarker.length ≤ hit.length) ∧
      ∀ p ∈ patterns data, ∀ text, (p.sub redactionMarker text).length ≤ text.length := by
  refine ⟨?_, rfl, ?_, ?_⟩
  · cases stream with
    | none => exact Nat.zero_le _
    | some stream =>
        rw [decode_eq]
        refine (length_redactText_le data _).trans ?_
        rw [List.length_drop]
        omega
  · intro p hp prev hit w hhit
    exact hhit.le_length (spans_marker hp)
  · intro p hp text
    exact Pattern.length_sub_le (spans_marker hp) text

/-- The tail, as what `TaskResult.stdout_tail` holds. -/
def columnTail (data : CharacterData) (stream : List Byte) : String :=
  String.ofList ((decode data (some stream)).chars?.getD [])

/-- Nothing in a tail is lost in its column: `errors="replace"` reads no surrogate, and there is
none in the marker. -/
theorem ofString_columnTail (data : CharacterData) (stream : List Byte) :
    PyStr.ofString (columnTail data stream) = decode data (some stream) := by
  have hscalar : ∀ c ∈ decode data (some stream), ¬ IsSurrogate c.val := by
    intro c hc
    rw [decode_eq, redactText_foldl] at hc
    rcases Pattern.mem_foldl_sub hc with hc | hc
    · exact not_isSurrogate_decodeReplace stream c (List.mem_of_mem_drop hc)
    · obtain ⟨d, -, rfl⟩ := List.mem_map.mp hc
      exact not_isSurrogate_char d
  obtain ⟨cs, hcs⟩ := PyStr.exists_chars? hscalar
  rw [PyStr.ofString, columnTail, hcs, Option.getD_some, String.toList_ofList,
    ← PyStr.eq_ofChars hcs]

/-! ### A text around a secret -/

/-- What is before a secret, its prefix, and what is behind it. -/
structure Surroundings (data : CharacterData) where
  pattern : Pattern CodePoint
  known : pattern ∈ patterns data
  front : PyStr
  pre : PyStr
  rest : PyStr

namespace Surroundings

variable (S : Surroundings data)

def text (body : PyStr) : PyStr := S.front ++ (S.pre ++ (body ++ S.rest))

/-- The match of the pattern at this place is the prefix and the body. -/
def Matches (body : PyStr) : Prop :=
  S.pattern.find? S.front.getLast? (S.pre ++ (body ++ S.rest)) = some (body ++ S.rest) ∧
    (body ++ S.rest).dropWhile S.pattern.body = S.rest

/-- Where the tail begins, with a body of this length. -/
def cut (n : ℕ) : ℕ := S.front.length + S.pre.length + n + S.rest.length - tailLimit

/-- The tail begins inside the secret. -/
def CutInside (n : ℕ) : Prop :=
  S.front.length < S.cut n ∧ S.cut n < S.front.length + S.pre.length + n

theorem length_text (body : PyStr) :
    (S.text body).length = S.front.length + S.pre.length + body.length + S.rest.length := by
  simp [text, Nat.add_assoc]

end Surroundings

/-! ### The match -/

/-- `a` and `b`. -/
def letters : PyStr := PyStr.ofChars ['a', 'b']

theorem body_letters {p : Pattern CodePoint} (hp : p ∈ patterns data) : letters.all p.body := by
  rcases mem_patterns hp with rfl | rfl | rfl | rfl
  all_goals rfl

namespace Surroundings

variable {S : Surroundings data} {body : PyStr}

/-- A match is a secret where one may begin. -/
theorem matches_iff :
    S.Matches body ↔
      S.pattern.start S.front.getLast? ∧ Secret data S.pattern S.pre body S.rest := by
  constructor
  · intro hmatch
    obtain ⟨hfind, hdrop⟩ := hmatch
    have hstop := head_dropWhile S.pattern.body (body ++ S.rest)
    have htake := List.takeWhile_append_dropWhile (p := S.pattern.body) (l := body ++ S.rest)
    rw [hdrop] at hstop htake
    have hrun := List.append_cancel_right htake
    obtain ⟨-, -, -, hstart, -, hruns, -⟩ := Pattern.find?_some hfind
    rw [Pattern.Runs, hrun] at hruns
    refine ⟨hstart, S.known, Pattern.opens_of_find? hfind, ?_, hruns, hstop⟩
    rw [← hrun]
    exact fun c hc => List.mem_takeWhile_imp hc
  · intro hboth
    obtain ⟨hstart, hsecret⟩ := hboth
    obtain ⟨r, hfind, hdrop⟩ := hsecret.hits hstart
    rw [List.append_assoc] at hfind
    obtain rfl := opens_unique S.known (Pattern.opens_of_find? hfind) hsecret.opens
    exact ⟨hfind, hdrop⟩

theorem Matches.secret (h : S.Matches body) : Secret data S.pattern S.pre body S.rest :=
  (matches_iff.mp h).2

/-- The prefix does not care which letter the body repeats. -/
theorem Matches.replicate (h : S.Matches body) {a : CodePoint} (ha : a ∈ letters) :
    S.Matches (List.replicate body.length a) := by
  refine matches_iff.mpr ⟨(matches_iff.mp h).1, h.secret.of_body (fun c hc => ?_) ?_ h.secret.stop⟩
  · rw [List.eq_of_mem_replicate hc]
    exact List.all_eq_true.mp (body_letters S.known) a ha
  · rw [List.length_replicate]
    exact h.secret.long

end Surroundings

/-! ### What is left of a secret that is cut -/

theorem s_quiet {p : Pattern CodePoint} (hp : p ∈ patterns data) {d : CodePoint}
    (hd : d ≠ CodePoint.ofChar 'k') (prev : Option CodePoint) (w : PyStr) :
    p.find? prev (CodePoint.ofChar 's' :: d :: w) = none := by
  rcases mem_patterns hp with rfl | rfl | rfl | rfl
  · refine Pattern.find?_eq_none fun r hopens => ?_
    obtain ⟨c, w', hw, -, head, hhead, hstrip⟩ := hopens
    rw [List.mem_singleton.mp hhead] at hstrip
    have hkey := strip_literal hstrip
    rw [← (List.cons.inj hw).2] at hkey
    exact absurd (List.cons.inj hkey).1 hd
  all_goals exact Pattern.find?_of_not_first rfl

theorem tail_first {p : Pattern CodePoint} (hp : p ∈ patterns data) :
    p.heads.all fun head => head.all fun item =>
      firsts.all fun c => c = CodePoint.ofChar 's' || !item.cls c := by
  rcases mem_patterns hp with rfl | rfl | rfl | rfl
  all_goals rfl

theorem tail_key {p : Pattern CodePoint} (hp : p ∈ patterns data) :
    (p.heads.all fun head => head.all fun item => !item.cls (CodePoint.ofChar 's')) ||
      p.heads.all fun head => head.all fun item => !item.cls (CodePoint.ofChar 'k') := by
  rcases mem_patterns hp with rfl | rfl | rfl | rfl
  all_goals rfl

/-- Behind its first character a prefix has no other than `s` that begins a match, and then no
`k`. -/
theorem Surroundings.Matches.tail_chars {S : Surroundings data} {body : PyStr}
    (h : S.Matches body) :
    (∀ c ∈ S.pre.tail, c ∈ firsts → c = CodePoint.ofChar 's') ∧
      (CodePoint.ofChar 's' ∈ S.pre.tail → CodePoint.ofChar 'k' ∉ S.pre.tail) := by
  obtain ⟨c, tail, hpre, -, -, -, head, hhead, hstrip⟩ := Pattern.find?_some h.1
  replace hpre : S.pre = c :: tail := List.append_cancel_right hpre
  have hcls := mem_cls_of_strip hstrip
  rw [hpre, List.tail_cons]
  constructor
  · intro d hd hmem
    obtain ⟨item, hitem, htrue⟩ := hcls d hd
    have hitems := List.all_eq_true.mp (tail_first S.known) head hhead
    have hall := List.all_eq_true.mp hitems item hitem
    simpa [htrue] using List.all_eq_true.mp hall d hmem
  · intro hs hk
    obtain ⟨item, hitem, htrue⟩ := hcls _ hs
    obtain ⟨item', hitem', htrue'⟩ := hcls _ hk
    rcases Bool.or_eq_true_iff.mp (tail_key S.known) with hall | hall
    · have hno := List.all_eq_true.mp (List.all_eq_true.mp hall head hhead) item hitem
      simp [htrue] at hno
    · have hno := List.all_eq_true.mp (List.all_eq_true.mp hall head hhead) item' hitem'
      simp [htrue'] at hno

theorem letters_all : letters.all fun c => !firsts.contains c && c ≠ CodePoint.ofChar 'k' := by
  decide

/-- So no match begins in what the cut leaves of a prefix. -/
theorem Surroundings.Matches.quiet {S : Surroundings data} {body : PyStr} (h : S.Matches body)
    {t : PyStr} (ht : t <:+ S.pre.tail) {a : CodePoint} (ha : a ∈ letters) {m : ℕ} (hm : 0 < m) :
    Quiet data (t ++ List.replicate m a) := by
  obtain ⟨hs, hk⟩ := h.tail_chars
  have hletter := List.all_eq_true.mp letters_all a ha
  simp only [Bool.and_eq_true, Bool.not_eq_true', List.contains_eq_mem, decide_eq_false_iff_not,
    decide_eq_true_eq] at hletter
  intro p hp w i hi prev
  rw [List.drop_append_of_le_length (Nat.le_of_lt hi), List.drop_eq_getElem_cons hi,
    List.cons_append]
  by_cases hfirst : (t ++ List.replicate m a)[i] ∈ firsts
  · have hit : i < t.length := by
      by_contra hge
      rw [List.getElem_append_right (Nat.le_of_not_lt hge), List.getElem_replicate] at hfirst
      exact hletter.1 hfirst
    have hnext : i + 1 < (t ++ List.replicate m a).length := by simp; omega
    have hmem : t[i] ∈ S.pre.tail := ht.subset (List.getElem_mem hit)
    rw [List.getElem_append_left hit] at hfirst ⊢
    have heq := hs _ hmem hfirst
    rw [heq] at hmem ⊢
    rw [List.drop_eq_getElem_cons hnext, List.cons_append]
    refine s_quiet hp (fun hkey => ?_) prev _
    rcases List.mem_append.mp (hkey ▸ List.getElem_mem hnext) with hin | hin
    · exact hk hmem (ht.subset hin)
    · exact hletter.2 (List.eq_of_mem_replicate hin).symm
  · exact Pattern.find?_of_not_first (not_first hp hfirst)

/-- And none in a body of one letter. -/
theorem whole_replicate {p : Pattern CodePoint} {a : CodePoint} (ha : a ∈ letters) (n : ℕ)
    (rest : PyStr) : Whole p (List.replicate n a) rest := by
  have hletter := List.all_eq_true.mp letters_all a ha
  simp only [Bool.and_eq_true, Bool.not_eq_true', List.contains_eq_mem, decide_eq_false_iff_not]
    at hletter
  have havoids : ∀ {p₀ : Pattern CodePoint}, p₀ ∈ patterns asciiData →
      Avoids p₀ (List.replicate n a) rest := by
    intro p₀ hp₀
    refine avoids_of_not_first (List.all_eq_true.mpr fun c hc => ?_) rest
    rw [List.eq_of_mem_replicate hc, not_first hp₀ hletter.1]
    rfl
  exact ⟨fun _ => havoids (apiKey_mem asciiData), fun _ _ => havoids (bearer_mem asciiData)⟩

/-! ### The cut -/

namespace Surroundings

variable {S : Surroundings data} {body : PyStr} {stream : List Byte}

theorem decode_text (h : decodeReplace stream = S.text body) :
    decode data (some stream) = redactText data ((S.text body).drop (S.cut body.length)) := by
  rw [decode_eq, h, S.length_text, cut]

/-- A cut that comes before the secret. -/
theorem drop_of_le {k : ℕ} (h : k ≤ S.front.length) (body : PyStr) :
    (S.text body).drop k = S.front.drop k ++ (S.pre ++ (body ++ S.rest)) :=
  List.drop_append_of_le_length h

/-- One that comes behind it. -/
theorem drop_of_ge {k : ℕ} (h : S.front.length + S.pre.length + body.length ≤ k) :
    (S.text body).drop k =
      S.rest.drop (k - (S.front.length + S.pre.length + body.length)) := by
  have htext : S.text body = (S.front ++ S.pre ++ body) ++ S.rest := by simp [text]
  have hlength : (S.front ++ S.pre ++ body).length =
      S.front.length + S.pre.length + body.length := by simp [Nat.add_assoc]
  rw [htext, List.drop_append, List.drop_eq_nil_of_le (by omega), List.nil_append, hlength]

/-- One that comes inside. -/
theorem drop_inside {n : ℕ} (hcut : S.CutInside n) (hn : 0 < n) :
    ∃ t m, t <:+ S.pre.tail ∧ 0 < m ∧ ∀ a,
      (S.text (List.replicate n a)).drop (S.cut n) = t ++ List.replicate m a ++ S.rest := by
  obtain ⟨hlow, hhigh⟩ := hcut
  obtain ⟨j, hj⟩ : ∃ j, S.cut n = S.front.length + (j + 1) :=
    ⟨S.cut n - S.front.length - 1, by omega⟩
  refine ⟨S.pre.drop (j + 1), n - (j + 1 - S.pre.length), ?_, by omega, fun a => ?_⟩
  · rw [Nat.add_comm, ← List.drop_drop, List.drop_one]
    exact List.drop_suffix j S.pre.tail
  · have hinside : j + 1 ≤ (S.pre ++ List.replicate n a).length := by
      rw [List.length_append, List.length_replicate]
      omega
    rw [hj, text, List.drop_append, List.drop_eq_nil_of_le (by omega), List.nil_append,
      Nat.add_sub_cancel_left, ← List.append_assoc, List.drop_append_of_le_length hinside,
      List.drop_append, List.drop_replicate]

/-- A match from before the secret ends inside its prefix, in the tail. -/
def Broken (S : Surroundings data) (n : ℕ) : Prop :=
  S.cut n ≤ S.front.length ∧ Breaks data none (S.front.drop (S.cut n)) S.pre

/-- What is left of the prefix and of the body, whatever letter the body repeats. -/
theorem shown_left (hn : 0 < body.length) (hleft : S.CutInside body.length ∨ S.Broken body.length) :
    ∃ y t m, t <:+ S.pre.tail ∧ 0 < m ∧ ∀ a, Quiet data (t ++ List.replicate m a) →
      ∃ w, redactText data ((S.text (List.replicate body.length a)).drop (S.cut body.length)) =
        y ++ (t ++ List.replicate m a ++ w) := by
  rcases hleft with hcut | ⟨hle, hbreaks⟩
  · obtain ⟨t, m, ht, hm, hdrop⟩ := drop_inside hcut hn
    refine ⟨[], t, m, ht, hm, fun a hquiet => ?_⟩
    obtain ⟨w, hw⟩ := foldl_quiet (w := S.rest) hquiet fun p (hp : p ∈ patterns data) => hp
    exact ⟨w, by rw [hdrop, redactText_foldl, hw, List.nil_append]⟩
  · obtain ⟨y, t, ht, hshows⟩ := hbreaks.shows
    refine ⟨y, t, body.length, ht, hn, fun a hquiet => ?_⟩
    rw [drop_of_le hle]
    exact hshows _ hquiet S.rest

/-- It can be seen in the tail. -/
theorem Matches.left_shows (h : S.Matches body)
    (hleft : S.CutInside body.length ∨ S.Broken body.length) {a b : CodePoint}
    (ha : a ∈ letters) (hb : b ∈ letters) (hne : a ≠ b) {streamA streamB : List Byte}
    (hA : decodeReplace streamA = S.text (List.replicate body.length a))
    (hB : decodeReplace streamB = S.text (List.replicate body.length b)) :
    decode data (some streamA) ≠ decode data (some streamB) := by
  obtain ⟨y, t, m, ht, hm, hshown⟩ :=
    shown_left (List.length_pos_iff.mpr h.secret.body_ne_nil) hleft
  obtain ⟨wA, heqA⟩ := hshown a (h.quiet ht ha hm)
  obtain ⟨wB, heqB⟩ := hshown b (h.quiet ht hb hm)
  rw [decode_text hA, decode_text hB, List.length_replicate, List.length_replicate, heqA, heqB]
  intro heq
  have hword := (List.append_inj (List.append_cancel_left heq) (by simp)).1
  have hruns := List.append_cancel_left hword
  obtain ⟨k, rfl⟩ : ∃ k, m = k + 1 := ⟨m - 1, by omega⟩
  exact hne (List.cons.inj hruns).1

-- What is left of a password when a token ends in its prefix.
example :
    redactText asciiData (PyStr.ofChars ['B', 'e', 'a', 'r', 'e', 'r', ' ', 'p', 'a', 's', 's', 'w',
      'o', 'r', 'd', '=', 'x', 'y']) = redactionMarker ++ PyStr.ofChars ['=', 'x', 'y'] := by decide

-- What is left of a token when an earlier pass has taken a part of it.
example :
    redactText asciiData (PyStr.ofChars ['B', 'e', 'a', 'r', 'e', 'r', ' ', 's', 'k', '-', '1', '2',
      '3', '4', '5', '6', '7', '8', '.', 'x']) =
      PyStr.ofChars ['B', 'e', 'a', 'r', 'e', 'r', ' '] ++ redactionMarker ++
        PyStr.ofChars ['.', 'x'] := by decide

/-- A match may begin where the text does. -/
theorem start_drop {p : Pattern CodePoint} (hp : p ∈ patterns data) {front : PyStr}
    (hstart : p.start front.getLast?) (n : ℕ) : p.start (front.drop n).getLast? := by
  rw [List.getLast?_drop]
  split_ifs
  · rcases mem_patterns hp with rfl | rfl | rfl | rfl
    all_goals rfl
  · exact hstart

/-- Outside of the secret the cut does not matter, and a whole secret is hidden. -/
theorem Matches.decode_eq {body' : PyStr} {stream' : List Byte} (h : S.Matches body)
    (h' : S.Matches body') (hcut : ¬ S.CutInside body.length) (hbroken : ¬ S.Broken body.length)
    (hlength : body'.length = body.length) (hread : decodeReplace stream = S.text body)
    (hread' : decodeReplace stream' = S.text body')
    (hwhole : S.cut body.length ≤ S.front.length →
      Whole S.pattern body S.rest ∧ Whole S.pattern body' S.rest) :
    decode data (some stream) = decode data (some stream') := by
  rw [decode_text hread, decode_text hread', hlength]
  rcases Nat.lt_or_ge S.front.length (S.cut body.length) with hlt | hle
  · have hge : S.front.length + S.pre.length + body.length ≤ S.cut body.length := by
      rw [CutInside] at hcut
      omega
    rw [drop_of_ge hge, drop_of_ge (by rw [hlength]; exact hge), hlength]
  · rw [drop_of_le hle, drop_of_le hle]
    have hsecret := h.secret
    have hsecret' := h'.secret
    by_cases hkey : S.pattern = apiKey
    · rw [hkey] at hsecret hsecret'
      exact redactText_hides_key hsecret hsecret' _
    · obtain ⟨hbody, hbody'⟩ := hwhole hle
      exact redactText_hides hkey hsecret hbody hsecret' hbody'
        (start_drop S.known (matches_iff.mp h).1 _) fun hbreaks => hbroken ⟨hle, hbreaks⟩

theorem letters_scalar : letters.all fun c => ¬ IsSurrogate c.val := by decide

theorem exists_stream (h : decodeReplace stream = S.text body) {a : CodePoint} (ha : a ∈ letters)
    (n : ℕ) : ∃ stream', decodeReplace stream' = S.text (List.replicate n a) := by
  have hscalar := not_isSurrogate_decodeReplace stream
  rw [h] at hscalar
  refine exists_decodeReplace fun c hc => ?_
  simp only [text, List.mem_append] at hc hscalar
  rcases hc with hc | hc | hc | hc
  · exact hscalar c (Or.inl hc)
  · exact hscalar c (Or.inr (Or.inl hc))
  · rw [List.eq_of_mem_replicate hc]
    simpa using List.all_eq_true.mp letters_scalar a ha
  · exact hscalar c (Or.inr (Or.inr (Or.inr hc)))

end Surroundings

/-- **Cutting and redacting.** Which of the possible bodies a secret has cannot be seen in the
tail just when the tail does not begin inside the secret and no match from before the secret ends
inside its prefix. -/
theorem decode_hides_iff {S : Surroundings data} {stream : List Byte} {body : PyStr}
    (hread : decodeReplace stream = S.text body) (hmatch : S.Matches body) :
    (∀ stream₁ stream₂ body₁ body₂, body₁.length = body.length → body₂.length = body.length →
      decodeReplace stream₁ = S.text body₁ → decodeReplace stream₂ = S.text body₂ →
        S.Matches body₁ → S.Matches body₂ →
        (S.cut body.length ≤ S.front.length →
          Whole S.pattern body₁ S.rest ∧ Whole S.pattern body₂ S.rest) →
          decode data (some stream₁) = decode data (some stream₂)) ↔
      ¬ S.CutInside body.length ∧ ¬ S.Broken body.length := by
  constructor
  · intro hsame
    rw [← not_or]
    intro hleft
    have ha : CodePoint.ofChar 'a' ∈ letters := by decide
    have hb : CodePoint.ofChar 'b' ∈ letters := by decide
    obtain ⟨streamA, hA⟩ := S.exists_stream hread ha body.length
    obtain ⟨streamB, hB⟩ := S.exists_stream hread hb body.length
    refine hmatch.left_shows hleft ha hb (by decide) hA hB ?_
    exact hsame streamA streamB _ _ (by simp) (by simp) hA hB (hmatch.replicate ha)
      (hmatch.replicate hb) fun _ => ⟨whole_replicate ha _ _, whole_replicate hb _ _⟩
  · intro hnot stream₁ stream₂ body₁ body₂ hlength₁ hlength₂ hread₁ hread₂ hmatch₁ hmatch₂ hwhole
    rw [← hlength₁] at hnot hlength₂ hwhole
    exact hmatch₁.decode_eq hmatch₂ hnot.1 hnot.2 hlength₂ hread₁ hread₂ hwhole

/-- `Bearer` and a space. -/
def bearerLine : Surroundings asciiData where
  pattern := bearer
  known := bearer_mem asciiData
  front := []
  pre := PyStr.ofChars ['B', 'e', 'a', 'r', 'e', 'r', ' ']
  rest := []

/-- The bytes of a line with this token. -/
def bearerStream (token : List Char) : List Byte :=
  (['B', 'e', 'a', 'r', 'e', 'r', ' '] ++ token).map fun c => byte c.toNat

theorem decode_hides_bearer :
    decode asciiData (some (bearerStream ['a', 'b', 'c', 'd', 'e', 'f', 'g', 'h'])) =
      decode asciiData (some (bearerStream ['1', '2', '3', '4', '5', '6', '7', '8'])) := by
  have h : bearerLine.Matches (PyStr.ofChars ['a', 'b', 'c', 'd', 'e', 'f', 'g', 'h']) :=
    ⟨by decide, by decide⟩
  have h' : bearerLine.Matches (PyStr.ofChars ['1', '2', '3', '4', '5', '6', '7', '8']) :=
    ⟨by decide, by decide⟩
  have hread : decodeReplace (bearerStream ['a', 'b', 'c', 'd', 'e', 'f', 'g', 'h']) =
      bearerLine.text (PyStr.ofChars ['a', 'b', 'c', 'd', 'e', 'f', 'g', 'h']) := by decide
  have hread' : decodeReplace (bearerStream ['1', '2', '3', '4', '5', '6', '7', '8']) =
      bearerLine.text (PyStr.ofChars ['1', '2', '3', '4', '5', '6', '7', '8']) := by decide
  refine (decode_hides_iff hread h).mpr ⟨?_, ?_⟩ _ _ _ _ rfl (by rfl) hread hread' h h' fun _ => ?_
  · rintro ⟨hlow, -⟩
    exact absurd hlow (by decide)
  · rintro ⟨-, _, _, u, v, _, _, hfront, hv, -⟩
    rw [show bearerLine.front = [] from rfl, List.drop_nil] at hfront
    exact hv (List.append_eq_nil_iff.mp hfront.symm).2
  · exact ⟨⟨fun _ => avoids_of_not_first (by decide) _, fun _ hne => absurd rfl hne⟩,
      ⟨fun _ => avoids_of_not_first (by decide) _, fun _ hne => absurd rfl hne⟩⟩

/-- `sk-`, eight characters, and so many line ends that the tail begins with the `k`. -/
def keyLine : Surroundings asciiData where
  pattern := apiKey
  known := apiKey_mem asciiData
  front := []
  pre := keyPrefix
  rest := List.replicate 7990 (CodePoint.ofChar '\n')

theorem keyLine_matches : keyLine.Matches (List.replicate 8 (CodePoint.ofChar 'a')) := by
  have hbody : ∀ c ∈ List.replicate 8 (CodePoint.ofChar 'a'), isKeyChar c := fun c hc => by
    rw [List.eq_of_mem_replicate hc]
    rfl
  refine ⟨apiKey_find?.mpr ⟨rfl, Pattern.runs_append hbody le_rfl _⟩,
    dropWhile_append_of_head hbody fun c hc => ?_⟩
  obtain rfl : _ = c := Option.some.inj hc
  rfl

theorem key_scalar : keyPrefix.all fun c => ¬ IsSurrogate c.val := by decide

/-- The tail shows the body of the key. -/
theorem cut_key_shows : ∃ stream stream' body body', body'.length = body.length ∧
    keyLine.Matches body ∧ keyLine.Matches body' ∧ decodeReplace stream = keyLine.text body ∧
      decodeReplace stream' = keyLine.text body' ∧
        decode asciiData (some stream) ≠ decode asciiData (some stream') := by
  have hmatch := keyLine_matches
  have ha : CodePoint.ofChar 'a' ∈ letters := by decide
  have hb : CodePoint.ofChar 'b' ∈ letters := by decide
  have hcut : keyLine.CutInside 8 := by
    have hrest : keyLine.rest.length = 7990 := List.length_replicate
    rw [Surroundings.CutInside, Surroundings.cut, hrest]
    decide
  obtain ⟨stream, hstream⟩ : ∃ stream, decodeReplace stream =
      keyLine.text (List.replicate 8 (CodePoint.ofChar 'a')) := by
    refine exists_decodeReplace fun c hc => ?_
    rcases List.mem_append.mp hc with hc | hc
    · cases hc
    · rcases List.mem_append.mp hc with hc | hc
      · simpa using List.all_eq_true.mp key_scalar c hc
      · rcases List.mem_append.mp hc with hc | hc
        all_goals
          rw [List.eq_of_mem_replicate hc]
          decide
  obtain ⟨streamB, hB⟩ := Surroundings.exists_stream hstream hb 8
  have hmatchB := hmatch.replicate hb
  rw [List.length_replicate] at hmatchB
  refine ⟨stream, streamB, _, _, by simp, hmatch, hmatchB, hstream, hB, ?_⟩
  refine hmatch.left_shows (Or.inl ?_) ha hb (by decide) hstream hB
  rw [List.length_replicate]
  exact hcut

end Taskq.Tail
