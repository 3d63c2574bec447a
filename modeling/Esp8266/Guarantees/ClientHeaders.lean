import Esp8266.Guarantees.ClientUrls

/-!
# The header lines of a request

`addHeader` looks for the name of a header as a substring of all lines. Where that finds the
line of the name or nothing, the text stays the concatenation of lines.
-/
set_option autoImplicit false

namespace Esp8266.Source.HttpClient
open Esp8266.Source.WString

/-- The end of a line and the colon are not in a name, and the end of a line is not in a value. -/
structure Line where
  name : WString
  value : WString
  name_plain : 0x0d ∉ name ∧ 0x0a ∉ name ∧ 0x3a ∉ name
  value_plain : 0x0d ∉ value ∧ 0x0a ∉ value
  deriving DecidableEq

/-- The line without its line feed. -/
def Line.body (line : Line) : WString := line.name ++ 0x3a :: 0x20 :: (line.value ++ [0x0d])

def Line.text (line : Line) : WString := line.body ++ [0x0a]

def render (lines : List Line) : WString := (lines.map Line.text).flatten

/-- A call of `addHeader`. -/
structure Call where
  line : Line
  first : Bool
  replace : Bool

def Reserved (authorization name : WString) : Prop :=
  name.map toLower = ofString "connection" ∨ name.map toLower = ofString "user-agent" ∨
    name.map toLower = ofString "host" ∨
    (name.map toLower = ofString "authorization" ∧ authorization ≠ [])

instance (authorization name : WString) : Decidable (Reserved authorization name) :=
  inferInstanceAs (Decidable (_ ∨ _ ∨ _ ∨ _))

/-- What a call is to make of the lines. -/
def addLine (authorization : WString) (lines : List Line) (call : Call) : List Line :=
  if Reserved authorization call.line.name then lines
  else
    let kept := if call.replace then lines.eraseP (·.name = call.line.name) else lines
    if call.first then call.line :: kept else kept ++ [call.line]

/-- The search finds the line of the name or nothing. -/
def Clean (authorization : WString) (lines : List Line) (call : Call) : Prop :=
  0 ∉ call.line.name ∧
    (call.replace = true → ¬ Reserved authorization call.line.name →
      0 ∉ render lines ∧
        ∀ line ∈ lines.takeWhile (·.name ≠ call.line.name),
          ¬ call.line.name ++ [0x3a, 0x20] <:+: line.body)

/-! ## Searching line by line -/

theorem strstr_start {pattern text : WString} (begins : pattern <+: text) :
    strstr pattern text = some 0 := by
  cases text with
  | nil =>
    rw [List.prefix_nil.mp begins]
    rfl
  | cons c rest => rw [strstr, if_pos (List.isPrefixOf_iff_prefix.mpr begins)]

/-- A pattern without line feed that is not in the first line is found behind it. -/
theorem strstr_line {pattern : WString} (oneLine : 0x0a ∉ pattern) (rest : WString) :
    ∀ {body : WString}, ¬ pattern <:+: body →
      strstr pattern (body ++ 0x0a :: rest) =
        (strstr pattern rest).map (· + (body.length + 1)) := by
  have inside : ∀ body : WString, pattern <+: body ++ 0x0a :: rest → pattern <+: body := by
    intro body begins
    by_contra longer
    obtain ⟨tail, whole⟩ := begins
    rcases List.append_eq_append_iff.mp whole with ⟨t, same, -⟩ | ⟨t, same, other⟩
    · exact longer ⟨t, same.symm⟩
    · cases t with
      | nil => exact longer ⟨[], by rw [List.append_nil, same, List.append_nil]⟩
      | cons c t =>
        rw [List.cons_append, List.cons.injEq] at other
        exact oneLine (by rw [same, ← other.1]; simp)
  intro body
  induction body with
  | nil =>
    intro absent
    have no : ¬ pattern.isPrefixOf (0x0a :: rest) = true := by
      intro begins
      exact absent (inside [] (List.isPrefixOf_iff_prefix.mp begins)).isInfix
    rw [List.nil_append, strstr, if_neg no]
    rfl
  | cons c body ih =>
    intro absent
    have no : ¬ pattern.isPrefixOf (c :: (body ++ 0x0a :: rest)) = true := by
      intro begins
      exact absent (inside (c :: body) (List.isPrefixOf_iff_prefix.mp begins)).isInfix
    have later := ih fun infix' => absent (infix'.trans (List.suffix_cons c body).isInfix)
    rw [List.cons_append, strstr, if_neg no, later, Option.map_map]
    rfl

theorem render_cons (line : Line) (lines : List Line) :
    render (line :: lines) = line.body ++ 0x0a :: render lines := by
  rw [render, List.map_cons, List.flatten_cons, Line.text, List.append_assoc]
  rfl

theorem render_append (front back : List Line) :
    render (front ++ back) = render front ++ render back := by
  rw [render, List.map_append, List.flatten_append]
  rfl

/-- A pattern that no line contains is found behind the lines. -/
theorem strstr_lines {pattern : WString} (oneLine : 0x0a ∉ pattern) (rest : WString) :
    ∀ {lines : List Line}, (∀ line ∈ lines, ¬ pattern <:+: line.body) →
      strstr pattern (render lines ++ rest) =
        (strstr pattern rest).map (· + (render lines).length) := by
  intro lines
  induction lines with
  | nil =>
    intro _
    change strstr pattern rest = (strstr pattern rest).map id
    rw [Option.map_id]
    rfl
  | cons line lines ih =>
    intro absent
    rw [render_cons, List.append_assoc, List.cons_append,
      strstr_line oneLine _ (absent line List.mem_cons_self),
      ih fun other mem => absent other (List.mem_cons_of_mem _ mem), Option.map_map]
    congr 1
    funext i
    simp only [Function.comp_apply, List.length_append, List.length_cons]
    omega

/-! ## One call -/

theorem equalsIgnoreCase_iff {name : WString} (plain : 0 ∉ name) (text : WString) :
    name.equalsIgnoreCase text = true ↔ name.map toLower = text.map toLower := by
  rw [equalsIgnoreCase, cstr_of_not_mem plain, decide_eq_true_iff]
  constructor
  · rintro ⟨length, same⟩
    rwa [length, List.take_length] at same
  · intro same
    have length : name.length = text.length := by
      have := congrArg List.length same
      rwa [List.length_map, List.length_map] at this
    rw [length, List.take_length]
    exact ⟨rfl, same⟩

/-- The check of `addHeader` for the names that the code sets itself. -/
theorem allowed_iff {name : WString} (plain : 0 ∉ name) (authorization : WString) :
    (!name.equalsIgnoreCase (ofString "Connection") &&
      !name.equalsIgnoreCase (ofString "User-Agent") &&
      !name.equalsIgnoreCase (ofString "Host") &&
      !(name.equalsIgnoreCase (ofString "Authorization") &&
        decide (authorization.length ≠ 0))) = true ↔ ¬ Reserved authorization name := by
  have connection : (ofString "Connection").map toLower = ofString "connection" := by decide
  have userAgent : (ofString "User-Agent").map toLower = ofString "user-agent" := by decide
  have host : (ofString "Host").map toLower = ofString "host" := by decide
  have auth : (ofString "Authorization").map toLower = ofString "authorization" := by decide
  simp only [Bool.and_eq_true, Bool.not_eq_true', ← Bool.not_eq_true, decide_eq_true_iff,
    equalsIgnoreCase_iff plain, connection, userAgent, host, auth, Reserved, not_or, Ne,
    List.length_eq_zero_iff, and_assoc]

/-- Without a line of the name, and with no line that contains it, nothing is found. -/
theorem indexOfString_lines_absent {name : WString} (oneLine : 0x0a ∉ name) (plain : 0 ∉ name)
    {lines : List Line} (clean : 0 ∉ render lines)
    (absent : ∀ line ∈ lines, ¬ name ++ [0x3a, 0x20] <:+: line.body) :
    indexOfString (render lines) (name ++ [0x3a, 0x20]) 0 = -1 := by
  have pattern : 0x0a ∉ name ++ [0x3a, 0x20] := by simp [oneLine]
  have found := strstr_lines pattern [] absent
  have nowhere : strstr (name ++ [0x3a, 0x20]) [] = none := by
    rw [strstr, if_neg (List.append_ne_nil_of_right_ne_nil _ (List.cons_ne_nil _ _))]
  rw [List.append_nil, nowhere] at found
  rw [indexOfString]
  split
  · rfl
  · rw [List.drop_zero, cstr_of_not_mem clean, cstr_of_not_mem (by simp [plain]), found]
    rfl

/-- The first line of the name is found at its start. -/
theorem indexOfString_lines {line : Line} {front back : List Line}
    (clean : 0 ∉ render (front ++ line :: back))
    (absent : ∀ other ∈ front, ¬ line.name ++ [0x3a, 0x20] <:+: other.body) :
    indexOfString (render (front ++ line :: back)) (line.name ++ [0x3a, 0x20]) 0 =
      (render front).length := by
  have whole := render_append front (line :: back)
  have pattern : 0x0a ∉ line.name ++ [0x3a, 0x20] := by simp [line.name_plain.2.1]
  have here : line.name ++ [0x3a, 0x20] <+: render (line :: back) := by
    rw [render_cons, Line.body]
    simp only [List.append_assoc, List.cons_append, List.prefix_append_right_inj]
    exact ⟨_, rfl⟩
  have plain : 0 ∉ line.name ++ [0x3a, 0x20] := by
    intro mem
    exact clean (by rw [whole]; exact List.mem_append_right _ (here.subset mem))
  have found := strstr_lines pattern (render (line :: back)) absent
  rw [strstr_start here, ← whole, Option.map_some, Nat.zero_add] at found
  have filled : ¬ (render (front ++ line :: back)).length ≤ 0 := by
    rw [whole, render_cons, List.length_append, List.length_append, List.length_cons]
    omega
  rw [indexOfString, if_neg filled, List.drop_zero, cstr_of_not_mem clean, cstr_of_not_mem plain,
    found]
  exact Int.zero_add _

/-- What is cut from the start of a line to its end. -/
theorem cut_line {line : Line} {front back : List Line}
    (clean : 0 ∉ render (front ++ line :: back)) :
    let text := render (front ++ line :: back)
    let headerEnd := text.indexOf 0x0a (render front).length
    substring text 0 (render front).length ++ substring text (headerEnd + 1).toNat text.length =
      render (front ++ back) := by
  intro text headerEnd
  have whole : text = render front ++ (line.body ++ 0x0a :: render back) := by
    change render (front ++ line :: back) = _
    rw [render_append, render_cons]
  change 0 ∉ text at clean
  rw [whole, List.mem_append, List.mem_append, List.mem_cons, not_or, not_or, not_or] at clean
  have noFeed : 0x0a ∉ line.body := by
    have name := line.name_plain.2.1
    have value := line.value_plain.2
    rw [Line.body]
    simp [name, value]
  have stop : headerEnd = ((render front).length + line.body.length : Nat) := by
    change text.indexOf 0x0a (render front).length = _
    rw [whole]
    exact indexOf_found _ _ _ clean.2.1 noFeed (by decide)
  have before : substring text 0 (render front).length = render front := by
    rw [whole]
    exact substring_first clean.1 _
  have after : substring text (headerEnd + 1).toNat text.length = render back := by
    have pieces : text = (render front ++ line.body ++ [0x0a]) ++ render back := by
      rw [whole]
      simp only [List.append_assoc, List.cons_append, List.nil_append]
    have next : (headerEnd + 1).toNat = (render front ++ line.body ++ [0x0a]).length := by
      rw [stop]
      simp only [List.length_append, List.length_cons, List.length_nil]
      omega
    rw [next, pieces, substring_end, cstr_of_not_mem clean.2.2.2]
  rw [before, after, render_append]

/-- The text without the first line of a name. -/
theorem replaced {name : WString} (oneLine : 0x0a ∉ name) (plain : 0 ∉ name) {lines : List Line}
    (clean : 0 ∉ render lines)
    (absent : ∀ line ∈ lines.takeWhile (·.name ≠ name), ¬ name ++ [0x3a, 0x20] <:+: line.body) :
    let text := render lines
    let headerStart := indexOfString text (name ++ [0x3a, 0x20]) 0
    (if headerStart ≠ -1 then
        substring text 0 (rightEnd text headerStart) ++
          substring text (text.indexOf 0x0a headerStart.toNat + 1).toNat text.length
      else text) = render (lines.eraseP (·.name = name)) := by
  intro text headerStart
  by_cases there : ∃ line ∈ lines, line.name = name
  · obtain ⟨line, mem, same⟩ := there
    obtain ⟨found, front, back, others, named, split, erased⟩ :=
      List.exists_of_eraseP (p := fun l : Line => decide (l.name = name)) mem
        (decide_eq_true same)
    have called : found.name = name := of_decide_eq_true named
    have before : lines.takeWhile (fun l : Line => decide (l.name ≠ name)) = front := by
      have all : ∀ l ∈ front, decide (l.name ≠ name) = true := by
        intro l mem
        have := others l mem
        simpa using this
      rw [split, List.takeWhile_append_of_pos all, List.takeWhile_cons_of_neg (by simp [called]),
        List.append_nil]
    rw [before, ← called] at absent
    rw [erased]
    subst split
    have start : headerStart = (render front).length := by
      change indexOfString (render (front ++ found :: back)) (name ++ [0x3a, 0x20]) 0 = _
      rw [← called]
      exact indexOfString_lines clean absent
    rw [start, if_pos (by omega), rightEnd_natCast, Int.toNat_natCast]
    exact cut_line clean
  · have other : ∀ line ∈ lines, line.name ≠ name := by
      intro line mem same
      exact there ⟨line, mem, same⟩
    have all : lines.takeWhile (fun l : Line => decide (l.name ≠ name)) = lines :=
      List.takeWhile_eq_self_iff.mpr fun line mem => decide_eq_true (other line mem)
    rw [all] at absent
    have nowhere : headerStart = -1 := indexOfString_lines_absent oneLine plain clean absent
    rw [nowhere, if_neg (by decide),
      List.eraseP_of_forall_not fun line mem => by simpa using other line mem]

/-- One call makes of the lines what it is to make. -/
theorem addHeader_lines {h : HTTPClient} {lines : List Line} (kept : h.headers = render lines)
    {call : Call} (clean : Clean h.base64Authorization lines call) :
    h.addHeader call.line.name call.line.value call.first call.replace =
      { h with headers := render (addLine h.base64Authorization lines call) } := by
  obtain ⟨plain, search⟩ := clean
  rw [HTTPClient.addHeader, addLine]
  by_cases reserved : Reserved h.base64Authorization call.line.name
  · rw [if_neg fun allowed => (allowed_iff plain _).mp allowed reserved, if_pos reserved, ← kept]
  · rw [if_pos ((allowed_iff plain _).mpr reserved), if_neg reserved, kept]
    have text : call.line.name ++ [0x3a, 0x20] ++ call.line.value ++ [0x0d, 0x0a] =
        render [call.line] := by
      rw [render_cons, Line.body]
      simp [render]
    dsimp only
    rw [text]
    cases replace : call.replace with
    | false =>
      rw [if_neg Bool.false_ne_true, if_neg Bool.false_ne_true]
      cases call.first with
      | false =>
        rw [if_neg Bool.false_ne_true, if_neg Bool.false_ne_true, render_append]
      | true =>
        rw [if_pos rfl, if_pos rfl, ← render_append, List.singleton_append]
    | true =>
      obtain ⟨noZero, absent⟩ := search replace reserved
      have cut := replaced call.line.name_plain.2.1 plain noZero absent
      dsimp only at cut
      rw [if_pos rfl, if_pos rfl, cut]
      cases call.first with
      | false =>
        rw [if_neg Bool.false_ne_true, if_neg Bool.false_ne_true, render_append]
      | true =>
        rw [if_pos rfl, if_pos rfl, ← render_append, List.singleton_append]

/-! ## All calls of a request -/

def addAll (h : HTTPClient) (calls : List Call) : HTTPClient :=
  calls.foldl
    (fun h call => h.addHeader call.line.name call.line.value call.first call.replace) h

def addLines (authorization : WString) (lines : List Line) (calls : List Call) : List Line :=
  calls.foldl (addLine authorization) lines

/-- Each call meets the condition on the lines that it finds. -/
def CleanRun (authorization : WString) : List Line → List Call → Prop
  | _, [] => True
  | lines, call :: calls =>
    Clean authorization lines call ∧ CleanRun authorization (addLine authorization lines call) calls

instance (authorization : WString) (lines : List Line) (call : Call) :
    Decidable (Clean authorization lines call) :=
  inferInstanceAs (Decidable (_ ∧ _))

instance decidableCleanRun (authorization : WString) :
    ∀ (lines : List Line) (calls : List Call), Decidable (CleanRun authorization lines calls)
  | _, [] => inferInstanceAs (Decidable True)
  | lines, call :: calls =>
    have := decidableCleanRun authorization (addLine authorization lines call) calls
    inferInstanceAs (Decidable (_ ∧ _))

theorem cleanRun_take {authorization : WString} :
    ∀ {calls : List Call} {lines : List Line}, CleanRun authorization lines calls →
      ∀ n, CleanRun authorization lines (calls.take n) := by
  intro calls
  induction calls with
  | nil =>
    intro lines _ n
    rw [List.take_nil]
    exact trivial
  | cons call calls ih =>
    rintro lines ⟨here, later⟩ n
    cases n with
    | zero => exact trivial
    | succ n => exact ⟨here, ih later n⟩

theorem addAll_lines : ∀ {calls : List Call} {h : HTTPClient} {lines : List Line},
    h.headers = render lines → CleanRun h.base64Authorization lines calls →
      addAll h calls =
        { h with headers := render (addLines h.base64Authorization lines calls) } := by
  intro calls
  induction calls with
  | nil =>
    intro h lines kept _
    exact congrArg (fun text => { h with headers := text }) kept
  | cons call calls ih =>
    rintro h lines kept ⟨here, later⟩
    have step := addHeader_lines kept here
    rw [addAll, List.foldl_cons, step]
    exact @ih { h with headers := render (addLine h.base64Authorization lines call) }
      (addLine h.base64Authorization lines call) rfl later

/-- **The header lines** of a request are, after every call of `addHeader`, those that the calls
up to then are to make. -/
theorem headers_are_lines (h : HTTPClient) (calls : List Call)
    (clean : CleanRun h.base64Authorization [] calls) (n : Nat) :
    addAll h.clear (calls.take n) =
      { h.clear with headers := render (addLines h.base64Authorization [] (calls.take n)) } :=
  @addAll_lines (calls.take n) h.clear [] rfl (cleanRun_take clean n)

theorem headers_are_lines_replaced :
    let one : Line := { name := ofString "A", value := ofString "1", name_plain := by decide,
                        value_plain := by decide }
    let other : Line := { name := ofString "B", value := ofString "2", name_plain := by decide,
                          value_plain := by decide }
    let again : Line := { name := ofString "A", value := ofString "3", name_plain := by decide,
                          value_plain := by decide }
    let calls : List Call := [⟨one, false, true⟩, ⟨other, false, true⟩, ⟨again, true, true⟩]
    CleanRun [] [] calls ∧
      (addAll (HTTPClient.clear {}) (calls.take 3)).headers = render [again, other] := by
  intro one other again calls
  have clean : CleanRun [] [] calls := by decide
  refine ⟨clean, ?_⟩
  rw [headers_are_lines {} calls clean 3]
  decide

/-- The header of a shorter name is cut out of the middle of a line. -/
theorem addHeader_cuts_line :
    let long : Line := { name := ofString "X-Length", value := ofString "1",
                         name_plain := by decide, value_plain := by decide }
    let short : Line := { name := ofString "Length", value := ofString "2",
                          name_plain := by decide, value_plain := by decide }
    let calls : List Call := [⟨long, false, true⟩, ⟨short, false, true⟩]
    (addAll (HTTPClient.clear {}) calls).headers = ofString "X-Length: 2\x0d\x0a" ∧
      render (addLines [] [] calls) = render [long, short] ∧
      (addAll (HTTPClient.clear {}) calls).headers ≠ render (addLines [] [] calls) := by
  decide

end Esp8266.Source.HttpClient
