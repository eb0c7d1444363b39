import PKernel.Filesystem.Paths
import Mathlib.Data.List.DropRight
import Mathlib.Algebra.Ring.Parity

/-! # How the walkers read a path

The loop over positions of a string is a walk over the components that it finds.
It finds those between the separators if every separator has a character behind
it that is not itself a separator.
-/

namespace PKernel.Vfs

/-- The components that the loop finds, one after the other. -/
inductive Segments where
  | last (name : Name)
  | cons (name : Name) (rest : Segments)
  /-- The NUL stands right behind a separator and is skipped. -/
  | overrun
deriving DecidableEq, Repr

/-- The components in the rest of a string, for a loop that has read `read` of the
present one. The character behind a separator is not looked at. -/
def scanRest : Name → Name → Segments
  | read, [] => .last read
  | read, [char] => if char = slash then .cons read .overrun else .last (read ++ [char])
  | read, char :: skipped :: rest =>
      if char = slash then .cons read (scanRest [skipped] rest)
      else scanRest (read ++ [char]) (skipped :: rest)

/-- The components that the loop finds in a path. -/
def scan (path : Path) : Segments := scanRest [] path.chars

/-- A walk over components. -/
def walkSegments (step last : Component) : State → Nat → Segments →
    Except Stop (Option Nat × State)
  | state, curNode, .last name => last state curNode name
  | state, curNode, .cons name rest => do
      match ← step state curNode name with
      | (none, state) => return (none, state)
      | (some newNode, state) => walkSegments step last state newNode rest
  | _, _, .overrun => .error .overrun

/-! ## The loop -/

section Loop

variable {read rest chars : Name} {char : UInt8}

theorem scanRest_of_ne (hne : char ≠ slash) :
    scanRest read (char :: rest) = scanRest (read ++ [char]) rest := by
  cases rest with
  | nil => simp [scanRest, hne]
  | cons skipped rest => simp [scanRest, hne]

theorem charAt_of_lt {pos : Nat} (hpos : pos < chars.length) :
    charAt chars pos = .ok chars[pos] := by
  simp [charAt, hpos]

theorem charAt_length : charAt chars chars.length = .ok 0 := by
  simp [charAt]

theorem charAt_of_gt {pos : Nat} (hpos : chars.length < pos) :
    charAt chars pos = .error .overrun := by
  simp [charAt, Nat.le_of_lt hpos, Nat.ne_of_gt hpos]

variable {step last : Component} {state : State} {curNode : Nat}

/-- The loop of the walkers is a walk over the components that it finds. -/
theorem walkPath_eq {fuel pathStart pathPos : Nat} (hnul : (0 : UInt8) ∉ chars)
    (hstart : pathStart ≤ pathPos) (hpos : pathPos ≤ chars.length)
    (hfuel : chars.length + 2 ≤ fuel + pathPos) :
    walkPath step last chars fuel state curNode pathStart pathPos =
      walkSegments step last state curNode
        (scanRest ((chars.drop pathStart).take (pathPos - pathStart)) (chars.drop pathPos)) := by
  -- every round moves on by at least one character
  induction fuel generalizing state curNode pathStart pathPos with
  | zero => omega
  | succ fuel ih =>
      rcases Nat.lt_or_eq_of_le hpos with hlt | rfl
      · have hread : chars[pathPos] ≠ 0 := fun hzero => hnul (hzero ▸ List.getElem_mem hlt)
        have hdrop : chars.drop pathPos = chars[pathPos] :: chars.drop (pathPos + 1) :=
          List.drop_eq_getElem_cons hlt
        simp only [walkPath, charAt_of_lt hlt, ok_bind, if_neg hread]
        by_cases hslash : chars[pathPos] = slash
        · rw [if_pos hslash, hdrop]
          rcases Nat.lt_or_eq_of_le (Nat.succ_le_of_lt hlt) with hnext | hend
          · have hnextDrop : chars.drop (pathPos + 1) =
                chars[pathPos + 1] :: chars.drop (pathPos + 2) := List.drop_eq_getElem_cons hnext
            have htake : (chars.drop (pathPos + 1)).take (pathPos + 2 - (pathPos + 1)) =
                [chars[pathPos + 1]] := by
              rw [hnextDrop, show pathPos + 2 - (pathPos + 1) = 1 by omega]
              rfl
            rw [hnextDrop, scanRest, if_pos hslash, walkSegments]
            congr 1
            funext moved
            obtain ⟨found, after⟩ := moved
            cases found with
            | none => rfl
            | some newNode =>
                simp only
                rw [ih (by omega) (by omega) (by omega), htake]
          · -- the separator is the last character of the string
            have hnextDrop : chars.drop (pathPos + 1) = [] := by
              rw [List.drop_eq_nil_iff]
              omega
            rw [hnextDrop, scanRest, if_pos hslash, walkSegments]
            congr 1
            funext moved
            obtain ⟨found, after⟩ := moved
            cases found with
            | none => rfl
            | some newNode =>
                obtain ⟨fuel, rfl⟩ : ∃ less, fuel = less + 1 := ⟨fuel - 1, by omega⟩
                simp only [walkSegments, walkPath, charAt_of_gt (show chars.length < pathPos + 2
                  by omega), error_bind]
        · have htake : (chars.drop pathStart).take (pathPos + 1 - pathStart) =
              (chars.drop pathStart).take (pathPos - pathStart) ++ [chars[pathPos]] := by
            rw [show pathPos + 1 - pathStart = pathPos - pathStart + 1 by omega,
              List.take_add_one]
            simp [show pathStart + (pathPos - pathStart) = pathPos by omega, hlt]
          rw [if_neg hslash, ih (by omega) (by omega) (by omega), htake, hdrop,
            scanRest_of_ne hslash]
      · simp [walkPath, charAt_length, scanRest, walkSegments]

theorem walkPath_eq_scan (path : Path) :
    walkPath step last path.chars (path.chars.length + 2) state curNode 0 0 =
      walkSegments step last state curNode (scan path) := by
  rw [walkPath_eq path.noNul (Nat.le_refl _) (Nat.zero_le _) (by omega)]
  simp [scan]

end Loop

/-! ## Paths that are read as they are written -/

/-- Behind every separator there is a character that is no separator. -/
def Separated (chars : Name) : Prop :=
  ∀ before after, chars = before ++ slash :: after →
    ∃ char rest, after = char :: rest ∧ char ≠ slash

/-- The components between the separators. -/
def components (path : Path) : List Name := path.chars.splitOn slash

/-- A list of components as the loop would find it. -/
def Segments.ofList : List Name → Segments
  | [] => .overrun
  | [name] => .last name
  | name :: rest => .cons name (.ofList rest)

section Separated

variable {read rest : Name} {char skipped : UInt8}

theorem Separated.of_cons (hseparated : Separated (char :: rest)) : Separated rest := by
  intro before after hsplit
  exact hseparated (char :: before) after (by rw [hsplit]; rfl)

theorem Separated.ne_slash (hseparated : Separated (slash :: skipped :: rest)) :
    skipped ≠ slash := by
  obtain ⟨next, tail, heq, hne⟩ := hseparated [] (skipped :: rest) rfl
  rwa [(List.cons.inj heq).1]

theorem not_separated_slash : ¬ Separated [slash] := by
  intro hseparated
  obtain ⟨next, tail, heq, _⟩ := hseparated [] [] rfl
  simp at heq

theorem separated_nil : Separated [] := by
  intro before after hsplit
  simp at hsplit

theorem Separated.cons (hseparated : Separated rest) (hne : char ≠ slash) :
    Separated (char :: rest) := by
  intro before after hsplit
  cases before with
  | nil => exact absurd (List.cons.inj hsplit).1 hne
  | cons _ before => exact hseparated before after (List.cons.inj hsplit).2

theorem Separated.cons_slash (hseparated : Separated rest) (hne : skipped ≠ slash) :
    Separated (slash :: skipped :: rest) := by
  intro before after hsplit
  cases before with
  | nil => exact ⟨skipped, rest, (List.cons.inj hsplit).2.symm, hne⟩
  | cons _ before => exact (hseparated.cons hne) before after (List.cons.inj hsplit).2

theorem splitOn_slash (rest : Name) :
    (slash :: rest).splitOn slash = [] :: rest.splitOn slash := by
  rw [List.splitOn_cons_eq_if_modifyHead]
  simp

theorem splitOn_of_ne (hne : char ≠ slash) :
    (char :: rest).splitOn slash = (rest.splitOn slash).modifyHead (List.cons char) := by
  rw [List.splitOn_cons_eq_if_modifyHead]
  simp [hne]

theorem modifyHead_splitOn_of_ne (hne : char ≠ slash) :
    ((char :: rest).splitOn slash).modifyHead (read ++ ·) =
      (rest.splitOn slash).modifyHead (read ++ [char] ++ ·) := by
  rw [splitOn_of_ne hne]
  cases rest.splitOn slash with
  | nil => rfl
  | cons head tail => simp

theorem Segments.ofList_cons {name : Name} {names : List Name} (hne : names ≠ []) :
    Segments.ofList (name :: names) = .cons name (.ofList names) := by
  cases names with
  | nil => exact absurd rfl hne
  | cons head tail => rfl

/-- A well separated rest of a string is read at its separators. -/
theorem scanRest_of_separated (hseparated : Separated rest) :
    scanRest read rest = .ofList ((rest.splitOn slash).modifyHead (read ++ ·)) := by
  fun_induction scanRest read rest with
  | case1 read => simp [Segments.ofList]
  | case2 read => exact absurd hseparated not_separated_slash
  | case3 read char hne =>
      rw [modifyHead_splitOn_of_ne hne]
      simp [Segments.ofList]
  | case4 read skipped rest ih =>
      have hne := hseparated.ne_slash
      rw [ih hseparated.of_cons.of_cons, splitOn_slash, List.modifyHead_cons, List.append_nil,
        Segments.ofList_cons (by simp), splitOn_of_ne hne]
      rfl
  | case5 read char skipped rest hne ih =>
      rw [ih hseparated.of_cons, ← modifyHead_splitOn_of_ne hne]

/-- Where no component but the first is empty the separators are apart. -/
theorem separated_of_components (hnames : ∀ name ∈ (rest.splitOn slash).tail, name ≠ []) :
    Separated rest := by
  induction rest with
  | nil => exact separated_nil
  | cons char rest ih =>
      by_cases hslash : char = slash
      · rw [hslash, splitOn_slash, List.tail_cons] at hnames
        rw [hslash]
        have hrest := ih fun name hname => hnames name (List.mem_of_mem_tail hname)
        cases rest with
        | nil => exact absurd rfl (hnames [] (by simp))
        | cons skipped rest =>
            refine Separated.cons_slash hrest.of_cons ?_
            rintro rfl
            rw [splitOn_slash] at hnames
            exact hnames [] List.mem_cons_self rfl
      · rw [splitOn_of_ne hslash] at hnames
        refine (ih ?_).cons hslash
        cases hsplit : rest.splitOn slash with
        | nil => exact fun _ hname => nomatch hname
        | cons head tail =>
            rw [hsplit] at hnames
            exact hnames

theorem scan_of_separated {path : Path} (hseparated : Separated path.chars) :
    scan path = .ofList (components path) := by
  rw [scan, scanRest_of_separated hseparated, components]
  cases path.chars.splitOn slash with
  | nil => rfl
  | cons head tail => rfl

end Separated

/-! ## Paths that are read otherwise -/

/-- Among components with the given names the loop comes to one that starts with a
separator, or runs past the end. -/
def Segments.Derails (names : List Name) : Segments → Prop
  | .last name => name.head? = some slash
  | .cons name rest => name.head? = some slash ∨ (name ∈ names ∧ rest.Derails names)
  | .overrun => True

/-- The loop runs past the end of the string. -/
def Segments.Overruns : Segments → Prop
  | .last _ => False
  | .cons _ rest => rest.Overruns
  | .overrun => True

/-- The number of separators at the end of a string. -/
def trailing (chars : Name) : Nat := (chars.rtakeWhile (· == slash)).length

section Derails

variable {read rest : Name} {char skipped : UInt8}

theorem Segments.Derails.mono {names more : List Name} {segments : Segments}
    (hsubset : names ⊆ more) (hderails : segments.Derails names) : segments.Derails more := by
  induction segments with
  | last name => exact hderails
  | cons name rest ih =>
      rcases hderails with hhead | ⟨hmem, hrest⟩
      · exact .inl hhead
      · exact .inr ⟨hsubset hmem, ih hrest⟩
  | overrun => trivial

theorem derails_of_head {names : List Name} (hhead : read.head? = some slash) :
    (scanRest read rest).Derails names := by
  fun_induction scanRest read rest with
  | case1 read => exact hhead
  | case2 read => exact .inl hhead
  | case3 read char hne =>
      rw [Segments.Derails, List.head?_append, hhead]
      rfl
  | case4 read skipped rest ih => exact .inl hhead
  | case5 read char skipped rest hne ih =>
      apply ih
      rw [List.head?_append, hhead]
      rfl

theorem scanRest_derails (read : Name) (hnot : ¬ Separated rest) :
    (scanRest read rest).Derails ((rest.splitOn slash).modifyHead (read ++ ·)) := by
  fun_induction scanRest read rest with
  | case1 read => exact absurd separated_nil hnot
  | case2 read =>
      refine .inr ⟨?_, trivial⟩
      rw [splitOn_slash]
      simp
  | case3 read char hne => exact absurd (separated_nil.cons hne) hnot
  | case4 read skipped rest ih =>
      refine .inr ⟨by rw [splitOn_slash]; simp, ?_⟩
      by_cases hskipped : skipped = slash
      · exact derails_of_head (by simp [hskipped])
      · apply (ih fun hseparated => hnot (hseparated.cons_slash hskipped)).mono
        rw [splitOn_slash, splitOn_of_ne hskipped, List.modifyHead_cons]
        exact List.subset_cons_self _ _
  | case5 read char skipped rest hne ih =>
      rw [modifyHead_splitOn_of_ne hne]
      exact ih fun hseparated => hnot (hseparated.cons hne)

theorem trailing_cons (char : UInt8) (rest : Name) :
    trailing (char :: rest) = if trailing rest = rest.length then
      rest.length + (if char = slash then 1 else 0) else trailing rest := by
  unfold trailing
  rw [List.rtakeWhile, List.rtakeWhile, List.reverse_cons, List.takeWhile_append]
  simp only [List.length_reverse]
  by_cases hall : (rest.reverse.takeWhile (· == slash)).length = rest.length
  · rw [if_pos hall, if_pos hall]
    by_cases hchar : char = slash
    · simp [hchar]
    · simp [hchar]
  · rw [if_neg hall, if_neg hall]

theorem trailing_le (chars : Name) : trailing chars ≤ chars.length := by
  rw [trailing, List.rtakeWhile, List.length_reverse]
  simpa using (List.takeWhile_prefix (· == slash) (l := chars.reverse)).length_le

/-- The loop runs past the end if the string ends in an odd number of separators. -/
theorem scanRest_overruns : (scanRest read rest).Overruns ↔ trailing rest % 2 = 1 := by
  fun_induction scanRest read rest with
  | case1 read => simp [Segments.Overruns, trailing]
  | case2 read => simp [Segments.Overruns, trailing, List.rtakeWhile]
  | case3 read char hne => simp [Segments.Overruns, trailing, List.rtakeWhile, hne]
  | case4 read skipped rest ih =>
      have hle := trailing_le rest
      rw [Segments.Overruns, ih, trailing_cons slash, trailing_cons skipped, List.length_cons]
      grind
  | case5 read char skipped rest hne ih =>
      rw [ih, trailing_cons char, if_neg hne, Nat.add_zero]
      split <;> simp_all

end Derails

end PKernel.Vfs
