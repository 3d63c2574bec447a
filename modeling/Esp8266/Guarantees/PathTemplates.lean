import Esp8266.Lib.Runs
import Esp8266.Source.UriBraces

/-!
# Path templates

A pattern is literal characters and placeholders. Where no placeholder meets a brace of the
request, the loop of `canHandle` is a walk that gives each placeholder what stands before the
character behind it; the walk finds exactly the arguments that make the pattern the request.
-/
set_option autoImplicit false

namespace Esp8266.Source.UriBraces
open Esp8266.Lib Esp8266.Source.WString

inductive Token where
  | literal (c : UInt8)
  | placeholder
  deriving DecidableEq

/-- The literal characters and placeholders of a pattern. -/
def tokens : List UInt8 → List Token
  | [] => []
  | 0x7b :: 0x7d :: rest => .placeholder :: tokens rest
  | c :: rest => .literal c :: tokens rest

/-- No two placeholders are adjacent. -/
def Separated : List Token → Prop
  | [] => True
  | .literal _ :: rest => Separated rest
  | .placeholder :: rest => rest.head? ≠ some .placeholder ∧ Separated rest

/-- The pattern with an argument in the place of each placeholder. -/
def fill : List Token → List WString → Option WString
  | [], [] => some []
  | [], _ :: _ => none
  | .literal c :: rest, args => (fill rest args).map (c :: ·)
  | .placeholder :: _, [] => none
  | .placeholder :: rest, arg :: args => (fill rest args).map (arg ++ ·)

/-- No argument has a slash, or the literal character that follows its placeholder. -/
def Fits : List Token → List WString → Prop
  | [], _ => True
  | .literal _ :: rest, args => Fits rest args
  | .placeholder :: _, [] => True
  | .placeholder :: rest, arg :: args =>
    0x2f ∉ arg ∧ (∀ c, rest.head? = some (.literal c) → c ∉ arg) ∧ Fits rest args

/-- What stands before the first `c`, and what stands behind it. -/
def splitFirst (c : UInt8) : List UInt8 → Option (List UInt8 × List UInt8)
  | [] => none
  | d :: rest => if d = c then some ([], rest) else (splitFirst c rest).map fun p => (d :: p.1, p.2)

/-- Along the pattern and the request, no placeholder meets a brace, and no brace that is
literal meets anything else. -/
def Clean : List Token → List UInt8 → Prop
  | [], _ => True
  | .literal c :: _, [] => c ≠ 0x7b
  | .literal c :: rest, d :: request => if c = d then Clean rest request else c ≠ 0x7b
  | .placeholder :: .literal c :: rest, request =>
    request.head? ≠ some 0x7b ∧ ∀ p, splitFirst c request = some p → Clean rest p.2
  | .placeholder :: _, request => request.head? ≠ some 0x7b

/-- The walk: each placeholder takes what stands before the next literal character, the last one
what is left. -/
def walk : List Token → List UInt8 → List WString → Bool × List WString
  | [], request, args => (decide (request = []), args)
  | .literal _ :: _, [], args => (false, args)
  | .literal c :: rest, d :: request, args => if c = d then walk rest request args else (false, args)
  | .placeholder :: .literal c :: rest, request, args =>
    match splitFirst c request with
    | none => (false, args)
    | some (arg, request) => walk rest request (args ++ [arg])
  | .placeholder :: _, request, args => (decide (0x2f ∉ request), args ++ [request])

/-- What a call has to answer for a request. -/
structure Right (pattern : List Token) (request : WString) (answer : Bool × List WString) :
    Prop where
  sound : answer.1 = true → fill pattern answer.2 = some request
  complete : ∀ args, fill pattern args = some request → Fits pattern args → answer = (true, args)

theorem splitFirst_some {c : UInt8} : ∀ {request arg rest : List UInt8},
    splitFirst c request = some (arg, rest) → request = arg ++ c :: rest ∧ c ∉ arg
  | [], _, _, found => by cases found
  | d :: request, arg, rest, found => by
    rw [splitFirst] at found
    split at found
    · rename_i same
      cases found
      exact ⟨by rw [same]; rfl, List.not_mem_nil⟩
    · rename_i other
      obtain ⟨⟨front, back⟩, inner, shape⟩ := Option.map_eq_some_iff.mp found
      cases shape
      obtain ⟨rfl, absent⟩ := splitFirst_some inner
      refine ⟨rfl, ?_⟩
      rw [List.mem_cons, not_or]
      exact ⟨fun same => other same.symm, absent⟩

theorem splitFirst_none {c : UInt8} : ∀ {request : List UInt8},
    splitFirst c request = none → c ∉ request
  | [], _ => List.not_mem_nil
  | d :: request, missing => by
    rw [splitFirst] at missing
    split at missing
    · cases missing
    · rename_i other
      rw [List.mem_cons, not_or]
      exact ⟨fun same => other same.symm, splitFirst_none (Option.map_eq_none_iff.mp missing)⟩

theorem splitFirst_append {c : UInt8} {arg : List UInt8} (absent : c ∉ arg) (rest : List UInt8) :
    splitFirst c (arg ++ c :: rest) = some (arg, rest) := by
  induction arg with
  | nil => exact if_pos rfl
  | cons d arg ih =>
    rw [List.mem_cons, not_or] at absent
    rw [List.cons_append, splitFirst, if_neg (Ne.symm absent.1), ih absent.2]
    rfl

/-! ## The walk -/

/-- What the walk takes makes the pattern the request. -/
theorem walk_sound (pattern : List Token) (request : List UInt8) (args : List WString) :
    (walk pattern request args).1 = true → Separated pattern →
      ∃ taken, (walk pattern request args).2 = args ++ taken ∧ fill pattern taken = some request := by
  induction pattern, request, args using walk.induct with
  | case1 request args =>
    intro accepted _
    obtain rfl := of_decide_eq_true accepted
    exact ⟨[], (List.append_nil args).symm, rfl⟩
  | case2 c rest args => intro accepted; cases accepted
  | case3 c rest request args ih =>
    intro accepted separated
    rw [walk, if_pos rfl] at accepted ⊢
    obtain ⟨taken, same, filled⟩ := ih accepted separated
    exact ⟨taken, same, by rw [fill, filled]; rfl⟩
  | case4 c rest d request args other =>
    intro accepted
    rw [walk, if_neg other] at accepted
    cases accepted
  | case5 c rest request args missing =>
    intro accepted
    rw [walk, missing] at accepted
    cases accepted
  | case6 c rest request args arg request' found ih =>
    intro accepted separated
    rw [walk, found] at accepted ⊢
    obtain ⟨taken, same, filled⟩ := ih accepted separated.2
    obtain ⟨rfl, -⟩ := splitFirst_some found
    refine ⟨arg :: taken, ?_, ?_⟩
    · rw [same, List.append_assoc]
      rfl
    · rw [fill, fill, filled]
      rfl
  | case7 rest request args last =>
    intro _ separated
    cases rest with
    | nil =>
      refine ⟨[request], rfl, ?_⟩
      rw [fill, fill, Option.map_some, List.append_nil]
    | cons token rest =>
      cases token with
      | literal c => exact absurd rfl (last c rest)
      | placeholder => exact absurd rfl separated.1

/-- The walk takes the arguments that fit. -/
theorem walk_complete (pattern : List Token) : ∀ {request : List UInt8} {taken args : List WString},
    fill pattern taken = some request → Fits pattern taken → Separated pattern →
      walk pattern request args = (true, args ++ taken) := by
  induction pattern with
  | nil =>
    intro request taken args filled _ _
    cases taken with
    | nil =>
      obtain rfl := Option.some.inj filled
      rw [walk, List.append_nil]
      rfl
    | cons arg taken => cases filled
  | cons token pattern ih =>
    intro request taken args filled fits separated
    cases token with
    | literal c =>
      obtain ⟨rest, inner, rfl⟩ := Option.map_eq_some_iff.mp filled
      rw [walk, if_pos rfl]
      exact ih inner fits separated
    | placeholder =>
      cases taken with
      | nil => cases filled
      | cons arg taken =>
        obtain ⟨rest, inner, rfl⟩ := Option.map_eq_some_iff.mp filled
        obtain ⟨noSlash, noNext, fits⟩ := fits
        cases pattern with
        | nil =>
          cases taken with
          | cons arg taken => cases inner
          | nil =>
            obtain rfl := Option.some.inj inner
            rw [walk]
            · simp only [List.append_nil, noSlash, not_false_iff, decide_true]
            · intro c rest no
              cases no
        | cons next pattern =>
          cases next with
          | placeholder => exact absurd rfl separated.1
          | literal c =>
            obtain ⟨behind, last, rfl⟩ := Option.map_eq_some_iff.mp inner
            have found := splitFirst_append (noNext c rfl) behind
            have goesOn := @ih (c :: behind) taken (args ++ [arg]) inner fits separated.2
            rw [walk, if_pos rfl] at goesOn
            rw [walk, found]
            dsimp only
            rw [goesOn, List.append_assoc]
            rfl

/-! ## The loop is the walk -/

theorem tokens_literal {c : UInt8} {rest : List UInt8} (other : ¬ (c = 0x7b ∧ rest.head? = some 0x7d)) :
    tokens (c :: rest) = .literal c :: tokens rest := by
  rw [tokens]
  rintro tail rfl rfl
  exact other ⟨rfl, rfl⟩

/-- What is left has no slash. -/
theorem indexOf_slash {arg : WString} (plain : 0 ∉ arg) :
    decide (arg.indexOf 0x2f 0 = -1) = decide (0x2f ∉ arg) := by
  by_cases member : 0x2f ∈ arg
  · obtain ⟨front, back, split, first⟩ := List.eq_append_cons_of_mem member
    have found := indexOf_found [] front back
      (fun zero => plain (by rw [split]; exact List.mem_append_left _ zero)) first
      (show (0x2f : UInt8) ≠ 0 by decide)
    rw [List.nil_append, ← split] at found
    rw [decide_eq_false (by rw [show arg.indexOf 0x2f 0 = _ from found]; omega),
      decide_eq_false (fun absent => absent member)]
  · have missing := indexOf_absent [] arg (by rwa [cstr_of_not_mem plain])
      (show (0x2f : UInt8) ≠ 0 by decide)
    rw [decide_eq_true (show arg.indexOf 0x2f 0 = -1 from missing), decide_eq_true member]

/-- A placeholder does not meet a brace. -/
theorem clean_placeholder {rest : List Token} {request : List UInt8}
    (clean : Clean (.placeholder :: rest) request) : request.headD 0 ≠ 0x7b := by
  have head : request.head? ≠ some 0x7b := by
    cases rest with
    | nil => exact clean
    | cons token rest =>
      cases token with
      | literal c => exact clean.1
      | placeholder => exact clean
  cases request with
  | nil => decide
  | cons d request => exact fun same => head (congrArg some same)

/-- **The loop is the walk**, from any place of the pattern and the request on. -/
theorem matchLoop_walk {uri requestUri : WString} (plainUri : 0 ∉ uri) (plain : 0 ∉ requestUri)
    (fuel : Nat) : ∀ {p u q r : List UInt8} {pathArgs : List WString}, uri = p ++ u →
      requestUri = q ++ r → u.length < fuel → Separated (tokens u) → Clean (tokens u) r →
        matchLoop uri requestUri fuel p.length q.length pathArgs = walk (tokens u) r pathArgs := by
  induction fuel with
  | zero => intro p u q r pathArgs _ _ enough; omega
  | succ fuel ih =>
    intro p u q r pathArgs uriIs requestIs enough separated clean
    have plainRest : 0 ∉ r := fun zero => plain (by rw [requestIs]; exact List.mem_append_right _ zero)
    rw [matchLoop]
    cases u with
    | nil =>
      have ends : ¬ p.length < uri.length := by rw [uriIs, List.append_nil]; exact Nat.lt_irrefl _
      rw [if_neg ends, tokens, walk, requestIs, List.length_append]
      cases r with
      | nil => rw [decide_eq_true (by simp), decide_eq_true rfl]
      | cons d r => rw [decide_eq_false (by simp), decide_eq_false (List.cons_ne_nil d r)]
    | cons c u =>
      have inside : p.length < uri.length := by rw [uriIs, List.length_append]; simp
      have uriChar : uri.charAt p.length = c := by rw [uriIs, charAt_append]; rfl
      have requestUriChar : requestUri.charAt q.length = r.headD 0 := by rw [requestIs, charAt_append]
      rw [if_pos inside]
      dsimp only
      rw [uriChar, requestUriChar]
      by_cases brace : c = 0x7b ∧ u.head? = some 0x7d
      · obtain ⟨rfl, closing⟩ := brace
        obtain ⟨u, rfl⟩ : ∃ rest, u = 0x7d :: rest := by
          cases u with
          | nil => cases closing
          | cons d u => exact ⟨u, by rw [Option.some.inj closing]⟩
        rw [tokens] at clean separated ⊢
        rw [if_neg (clean_placeholder clean).symm, if_neg (fun no => no rfl)]
        cases u with
        | nil =>
          have arg : requestUri.substring q.length requestUri.length = r := by
            rw [requestIs, substring_end, cstr_of_not_mem plainRest]
          rw [if_pos (by rw [uriIs, List.length_append]; exact Nat.le_refl _), arg,
            indexOf_slash plainRest, tokens, walk]
          intro c rest no
          cases no
        | cons next u =>
          have literal : tokens (next :: u) = .literal next :: tokens u := by
            refine tokens_literal fun brace => ?_
            obtain ⟨rfl, closes⟩ := brace
            cases u with
            | nil => cases closes
            | cons d u =>
              obtain rfl := Option.some.inj closes
              exact separated.1 rfl
          have charEnd : uri.charAt (p.length + 2) = next := by
            have place := charAt_append (p ++ [0x7b, 0x7d]) (next :: u)
            rw [List.append_assoc, List.length_append] at place
            rw [uriIs]
            exact place
          have next_ne : next ≠ 0 := by
            rintro rfl
            exact plainUri (by rw [uriIs]; simp)
          rw [if_neg (by rw [uriIs, List.length_append]; simp), charEnd]
          rw [literal] at clean separated ⊢
          rw [walk]
          cases found : splitFirst next r with
          | none =>
            have missing := indexOf_absent q r
              (by rw [cstr_of_not_mem plainRest]; exact splitFirst_none found) next_ne
            rw [requestIs, missing, if_pos (by decide)]
          | some parts =>
            obtain ⟨arg, rest⟩ := parts
            obtain ⟨split, absent⟩ := splitFirst_some found
            have plainArg : 0 ∉ arg := fun zero =>
              plainRest (by rw [split]; exact List.mem_append_left _ zero)
            have place : requestUri.indexOf next q.length = (q.length + arg.length : Nat) := by
              rw [requestIs, split]
              exact indexOf_found q arg rest plainArg absent next_ne
            have taken : requestUri.substring q.length (q.length + arg.length) = arg := by
              rw [requestIs, split]
              exact substring_append q arg (next :: rest) plainArg
            have goesOn := @ih (p ++ [0x7b, 0x7d, next]) u (q ++ (arg ++ [next])) rest
              (pathArgs ++ [arg]) (by rw [uriIs, List.append_assoc]; rfl)
              (by rw [requestIs, split]; simp) (by simp only [List.length_cons] at enough; omega)
              separated.2 (clean.2 (arg, rest) found)
            rw [List.length_append, List.length_append, List.length_append, ← Nat.add_assoc] at goesOn
            rw [place, if_neg (by omega), Int.toNat_natCast, taken]
            exact goesOn
      · rw [tokens_literal brace] at clean separated ⊢
        have c_ne : c ≠ 0 := by
          rintro rfl
          exact plainUri (by rw [uriIs]; simp)
        cases r with
        | nil =>
          rw [List.headD_nil, if_neg c_ne, if_pos (show c ≠ 0x7b from clean), walk]
        | cons d r =>
          rw [List.headD_cons, walk]
          rw [Clean] at clean
          by_cases same : c = d
          · subst same
            rw [if_pos rfl] at clean ⊢
            rw [if_pos rfl]
            have goesOn := @ih (p ++ [c]) u (q ++ [c]) r pathArgs
              (by rw [uriIs, List.append_assoc]; rfl) (by rw [requestIs, List.append_assoc]; rfl)
              (by simp only [List.length_cons] at enough; omega) separated clean
            rw [List.length_append, List.length_append] at goesOn
            exact goesOn
          · rw [if_neg same] at clean ⊢
            rw [if_neg same, if_pos clean]

/-! ## Requests in a row -/

/-- A pattern with a placeholder is no clean request of its own. -/
theorem clean_self : ∀ {u : List UInt8}, Clean (tokens u) u → ∀ token ∈ tokens u, token ≠ .placeholder
  | [], _ => fun _ member => absurd member List.not_mem_nil
  | c :: u, clean => by
    by_cases brace : c = 0x7b ∧ u.head? = some 0x7d
    · obtain ⟨rfl, closing⟩ := brace
      obtain ⟨u, rfl⟩ : ∃ rest, u = 0x7d :: rest := by
        cases u with
        | nil => cases closing
        | cons d u => exact ⟨u, by rw [Option.some.inj closing]⟩
      rw [tokens] at clean
      exact absurd rfl (clean_placeholder clean)
    · rw [tokens_literal brace] at clean ⊢
      rw [Clean, if_pos rfl] at clean
      intro token member
      rcases List.mem_cons.mp member with rfl | later
      · exact fun no => by cases no
      · exact clean_self clean token later

/-- Without placeholders the walk takes nothing. -/
theorem walk_literal {pattern : List Token} (literal : ∀ token ∈ pattern, token ≠ .placeholder) :
    ∀ (request : List UInt8) (args : List WString), (walk pattern request args).2 = args := by
  induction pattern with
  | nil => intro request args; rfl
  | cons token pattern ih =>
    intro request args
    cases token with
    | placeholder => exact absurd rfl (literal _ List.mem_cons_self)
    | literal c =>
      cases request with
      | nil => rfl
      | cons d request =>
        rw [walk]
        split
        · exact ih (fun token member => literal token (List.mem_cons_of_mem _ member)) request args
        · rfl

/-- A pattern without placeholders is the request that it matches. -/
theorem walk_self : ∀ {u : List UInt8}, (∀ token ∈ tokens u, token ≠ .placeholder) →
    walk (tokens u) u [] = (true, [])
  | [], _ => rfl
  | c :: u, literal => by
    have other : ¬ (c = 0x7b ∧ u.head? = some 0x7d) := by
      rintro ⟨rfl, closing⟩
      cases u with
      | nil => cases closing
      | cons d u =>
        obtain rfl := Option.some.inj closing
        exact literal _ List.mem_cons_self rfl
    rw [tokens_literal other] at literal ⊢
    rw [walk, if_pos rfl]
    exact walk_self fun token member => literal token (List.mem_cons_of_mem _ member)

theorem walk_right {pattern : List Token} (separated : Separated pattern) (request : List UInt8) :
    Right pattern request (walk pattern request []) where
  sound := by
    intro accepted
    obtain ⟨taken, same, filled⟩ := walk_sound pattern request [] accepted separated
    rw [same]
    exact filled
  complete := by
    intro args filled fits
    exact walk_complete pattern filled fits separated

/-- Texts without NUL are compared as they are. -/
theorem equals_plain {s t : WString} (plain : 0 ∉ s) (plain' : 0 ∉ t) :
    s.equals t = decide (s = t) := by
  rw [equals, cstr_of_not_mem plain, cstr_of_not_mem plain']
  exact decide_eq_decide.mpr ⟨And.right, fun same => ⟨congrArg _ same, same⟩⟩

/-- **A call** is the walk, if the call before it has left no argument for a pattern that has no
placeholder. -/
theorem canHandle_walk {uri requestUri : WString} {pathArgs : List WString} (plainUri : 0 ∉ uri)
    (plain : 0 ∉ requestUri) (separated : Separated (tokens uri))
    (clean : Clean (tokens uri) requestUri)
    (none : (∀ token ∈ tokens uri, token ≠ .placeholder) → pathArgs = []) :
    canHandle uri requestUri pathArgs = walk (tokens uri) requestUri [] := by
  have loop := @matchLoop_walk uri requestUri plainUri plain (uri.length + 1) [] uri [] requestUri []
    rfl rfl (Nat.lt_succ_self _) separated clean
  rw [canHandle, equals_plain plainUri plain]
  by_cases same : uri = requestUri
  · subst same
    have literal := clean_self clean
    rw [if_pos (decide_eq_true rfl), none literal, walk_self literal]
  · rw [if_neg (by simpa using same)]
    exact loop

/-- One call after the other, on the arguments that are left. -/
def step (uri requestUri : WString) (pathArgs : List WString) :
    (Bool × List WString) × List WString :=
  (canHandle uri requestUri pathArgs, (canHandle uri requestUri pathArgs).2)

/-- **Path templates.** On requests along which no placeholder meets a brace, and no literal
brace anything else, every call answers right, whatever came before it. -/
theorem templates_right {uri : WString} (plainUri : 0 ∉ uri) (separated : Separated (tokens uri))
    (requests : List WString)
    (clean : ∀ requestUri ∈ requests, 0 ∉ requestUri ∧ Clean (tokens uri) requestUri) :
    ∀ call ∈ requests.zip (Runs.run (step uri) requests []).1, Right (tokens uri) call.1 call.2 := by
  have runs : ∀ (requests : List WString) (pathArgs : List WString),
      (∀ requestUri ∈ requests, 0 ∉ requestUri ∧ Clean (tokens uri) requestUri) →
      ((∀ token ∈ tokens uri, token ≠ .placeholder) → pathArgs = []) →
      ∀ call ∈ requests.zip (Runs.run (step uri) requests pathArgs).1,
        Right (tokens uri) call.1 call.2 := by
    intro requests
    induction requests with
    | nil => intro pathArgs _ _ call member; exact absurd member List.not_mem_nil
    | cons requestUri requests ih =>
      intro pathArgs clean none call member
      obtain ⟨plain, cleanFirst⟩ := clean requestUri List.mem_cons_self
      have answer := canHandle_walk plainUri plain separated cleanFirst none
      rcases List.mem_cons.mp member with rfl | later
      · change Right (tokens uri) requestUri (canHandle uri requestUri pathArgs)
        rw [answer]
        exact walk_right separated requestUri
      · refine ih (canHandle uri requestUri pathArgs).2
          (fun next member => clean next (List.mem_cons_of_mem _ member)) ?_ call later
        intro literal
        rw [answer]
        exact walk_literal literal requestUri []
  exact runs requests [] clean fun _ => rfl

/-- Two requests to a pattern with a placeholder. -/
theorem templates_right_two :
    let uri : WString := [0x2f, 0x61, 0x7b, 0x7d]
    ∀ call ∈ [[0x2f, 0x61, 0x78], [0x62]].zip
      (Runs.run (step uri) [[0x2f, 0x61, 0x78], [0x62]] []).1, Right (tokens uri) call.1 call.2 := by
  intro uri
  refine @templates_right uri (by decide) ?_ [[0x2f, 0x61, 0x78], [0x62]] ?_
  · simp [uri, tokens, Separated]
  · simp [uri, tokens, Clean]

/-- The pattern itself is answered with the arguments of the call before it. -/
theorem templates_exact_match :
    let uri := ofString "/{}"
    (canHandle uri uri []).1 = true ∧ ¬ Right (tokens uri) uri (canHandle uri uri []) := by
  intro uri
  refine ⟨by decide, fun right => ?_⟩
  exact absurd (right.sound (by decide)) (by decide)

end Esp8266.Source.UriBraces
