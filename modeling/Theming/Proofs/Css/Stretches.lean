import Mathlib.Data.List.DropRight
import Theming.Proofs.Css.Selectors

/-! The stretches of a key. What is taken from the front of a key ends with the arguments behind its
last colon, and of several brackets behind that colon the last one counts. A space ends the search
for brackets, and a comma does not. Without arguments a stretch ends at the first comma. -/

namespace Theming.Selector

theorem exists_of_findSome?_reverse_range {α : Type} {f : Nat → Option α} {k : Nat} {a : α}
    (h : (List.range k).reverse.findSome? f = some a) :
    ∃ n < k, f n = some a ∧ ∀ m, n < m → m < k → f m = none := by
  induction k with
  | zero => simp at h
  | succ k ih =>
    rw [List.range_succ, List.reverse_append, List.reverse_singleton, List.singleton_append,
      List.findSome?_cons] at h
    cases hk : f k with
    | some b =>
      rw [hk] at h
      exact ⟨k, by omega, hk.trans h, fun m hn hm => by omega⟩
    | none =>
      rw [hk] at h
      obtain ⟨n, hn, hf, hlast⟩ := ih h
      refine ⟨n, by omega, hf, fun m hm hk' => ?_⟩
      by_cases he : m = k
      · exact he ▸ hk
      · exact hlast m hm (by omega)

/-- A name without spaces, and behind it a bracket that is closed. -/
structure Call (text name args rest : List Char) : Prop where
  split : text = name ++ '(' :: (args ++ ')' :: rest)
  ne_nil : name ≠ []
  solid : ∀ c ∈ name, isSpace c = false
  closed : ')' ∉ args

theorem argumentsLength_eq_some_iff {text : List Char} {n : Nat} :
    argumentsLength text = some n ↔
      ∃ args rest, text = '(' :: (args ++ ')' :: rest) ∧ ')' ∉ args ∧ n = args.length + 2 := by
  constructor
  · intro h
    unfold argumentsLength at h
    split at h
    · next rest =>
      dsimp only at h
      split at h
      · next hlt =>
        have hn : (rest.takeWhile (· != ')')).length + 2 = n := Option.some.inj h
        have hsplit := List.takeWhile_append_dropWhile (p := (· != ')')) (l := rest)
        have hne : rest.dropWhile (· != ')') ≠ [] := by
          intro hnil
          rw [hnil, List.append_nil] at hsplit
          rw [hsplit] at hlt
          omega
        have hstop := List.head_dropWhile_not (· != ')') hne
        obtain ⟨c, others, hdrop⟩ := List.exists_cons_of_ne_nil hne
        simp only [hdrop, List.head_cons, bne_eq_false_iff_eq] at hstop
        subst hstop
        refine ⟨rest.takeWhile (· != ')'), others, ?_, fun hm => ?_, hn.symm⟩
        · rw [← hdrop, hsplit]
        · simpa using List.mem_takeWhile_imp hm
      · cases h
    · cases h
  · rintro ⟨args, rest, rfl, hclosed, rfl⟩
    have hall : ∀ c ∈ args, (c != ')') = true := fun c hc => by
      simpa using fun he : c = ')' => hclosed (he ▸ hc)
    have htake : (args ++ ')' :: rest).takeWhile (· != ')') = args := by
      rw [List.takeWhile_append_of_pos hall]
      simp
    simp [argumentsLength, htake]

theorem Call.length_le {text name args rest : List Char} (h : Call text name args rest) :
    name.length ≤ (text.takeWhile fun c => !isSpace c).length := by
  have hall : ∀ c ∈ name, (!isSpace c) = true := fun c hc => by simp [h.solid c hc]
  rw [h.split, List.takeWhile_append_of_pos hall, List.length_append]
  omega

theorem Call.argumentsLength_eq {text name args rest : List Char} (h : Call text name args rest) :
    argumentsLength (text.drop name.length) = some (args.length + 2) := by
  rw [h.split, List.drop_left]
  exact argumentsLength_eq_some_iff.2 ⟨args, rest, rfl, h.closed, rfl⟩

theorem functionLength_ne_none {text name args rest : List Char} (h : Call text name args rest) :
    functionLength text ≠ none := by
  intro hnone
  have hpos : 0 < name.length := List.length_pos_iff.2 h.ne_nil
  have hmem : name.length - 1 ∈
      (List.range (text.takeWhile fun c => !isSpace c).length).reverse := by
    have hle := h.length_le
    simp only [List.mem_reverse, List.mem_range]
    omega
  have hargs := List.findSome?_eq_none_iff.1 hnone _ hmem
  rw [Nat.sub_add_cancel hpos, h.argumentsLength_eq] at hargs
  cases hargs

/-- The length of a call is that of the one with the longest name. -/
theorem exists_call_of_functionLength {text : List Char} {n : Nat}
    (h : functionLength text = some n) : ∃ name args rest, Call text name args rest ∧
      n = name.length + args.length + 2 ∧
      ∀ name' args' rest', Call text name' args' rest' → name'.length ≤ name.length := by
  obtain ⟨m, hm, hf, hlast⟩ := exists_of_findSome?_reverse_range h
  obtain ⟨k, hk, hn⟩ := Option.map_eq_some_iff.1 hf
  obtain ⟨args, rest, hdrop, hclosed, rfl⟩ := argumentsLength_eq_some_iff.1 hk
  have hle := (List.takeWhile_prefix (fun c => !isSpace c) (l := text)).length_le
  have hlength : (text.take (m + 1)).length = m + 1 := List.length_take_of_le (by omega)
  refine ⟨text.take (m + 1), args, rest, ⟨?_, ?_, fun c hc => ?_, hclosed⟩, ?_, ?_⟩
  · rw [← hdrop, List.take_append_drop]
  · exact List.ne_nil_of_length_pos (by omega)
  · have hwithin : text.take (m + 1) <+: text.takeWhile fun c => !isSpace c :=
      List.prefix_of_prefix_length_le (List.take_prefix _ _) (List.takeWhile_prefix _) (by omega)
    simpa using List.mem_takeWhile_imp (hwithin.subset hc)
  · omega
  · intro name' args' rest' hcall
    by_contra hlt
    have hlength' := hcall.length_le
    have hnone := hlast (name'.length - 1) (by omega) (by omega)
    rw [Nat.sub_add_cancel (by omega), hcall.argumentsLength_eq] at hnone
    cases hnone

/-- Behind a head without commas there is a colon and a name with arguments. -/
structure Functional (text head name args rest : List Char) : Prop where
  plain : ',' ∉ head
  call : ∃ call, text = head ++ ':' :: call ∧ Call call name args rest

theorem Functional.lt_runLength {text head name args rest : List Char}
    (h : Functional text head name args rest) : head.length < runLength text := by
  obtain ⟨call, rfl, -⟩ := h.call
  rw [runLength_append h.plain, runLength, List.takeWhile_cons_of_pos (by decide), List.length_cons]
  omega

theorem functionalLength_ne_none {text head name args rest : List Char}
    (h : Functional text head name args rest) : functionalLength text ≠ none := by
  intro hnone
  have hmem : head.length ∈ (List.range (runLength text)).reverse := by
    simpa using h.lt_runLength
  have hfunction := List.findSome?_eq_none_iff.1 hnone _ hmem
  obtain ⟨call, rfl, hcall⟩ := h.call
  rw [List.drop_left] at hfunction
  exact functionLength_ne_none hcall (Option.map_eq_none_iff.1 hfunction)

/-- The last colon counts, and behind it the longest name. -/
theorem exists_functional_of_functionalLength {text : List Char} {n : Nat}
    (h : functionalLength text = some n) : ∃ head name args rest,
      Functional text head name args rest ∧
      n = (head ++ ':' :: (name ++ '(' :: (args ++ [')']))).length ∧
      ∀ head' name' args' rest', Functional text head' name' args' rest' →
        head'.length < head.length ∨
          head'.length = head.length ∧ name'.length ≤ name.length := by
  obtain ⟨m, hm, hf, hlast⟩ := exists_of_findSome?_reverse_range h
  split at hf
  · next call hdrop =>
    obtain ⟨k, hk, hn⟩ := Option.map_eq_some_iff.1 hf
    obtain ⟨name, args, rest, hcall, rfl, hlongest⟩ := exists_call_of_functionLength hk
    have hle := (List.takeWhile_prefix (· != ',') (l := text)).length_le
    have hrun : m < (text.takeWhile (· != ',')).length := hm
    have hlength : (text.take m).length = m := List.length_take_of_le (by omega)
    have hsplit : text = text.take m ++ ':' :: call := by rw [← hdrop, List.take_append_drop]
    refine ⟨text.take m, name, args, rest, ⟨fun hc => ?_, call, hsplit, hcall⟩, ?_, ?_⟩
    · have hwithin : text.take m <+: text.takeWhile (· != ',') :=
        List.prefix_of_prefix_length_le (List.take_prefix _ _) (List.takeWhile_prefix _) (by omega)
      simpa using List.mem_takeWhile_imp (hwithin.subset hc)
    · simp only [List.length_append, List.length_cons, List.length_nil, hlength]
      omega
    · intro head' name' args' rest' hother
      rw [hlength]
      rcases Nat.lt_trichotomy head'.length m with hlt | heq | hgt
      · exact .inl hlt
      · obtain ⟨call', htext, hcall'⟩ := hother.call
        have hcalls : ':' :: call = ':' :: call' := by
          rw [← hdrop, htext, ← heq, List.drop_left]
        cases hcalls
        exact .inr ⟨heq, hlongest _ _ _ hcall'⟩
      · have hnone := hlast head'.length hgt hother.lt_runLength
        obtain ⟨call', rfl, hcall'⟩ := hother.call
        rw [List.drop_left] at hnone
        exact absurd (Option.map_eq_none_iff.1 hnone) (functionLength_ne_none hcall')
  · cases hf

/-- What is taken from the front of a text: with arguments as far as these reach, and without them
up to the next comma. -/
inductive Reads (text : List Char) : (stretch rest : List Char) → Prop
  | functional {head name args rest : List Char} (here : Functional text head name args rest)
      (last : ∀ head' name' args' rest', Functional text head' name' args' rest' →
        head'.length < head.length ∨
          head'.length = head.length ∧ name'.length ≤ name.length) :
      Reads text (head ++ ':' :: (name ++ '(' :: (args ++ [')']))) rest
  | plain {stretch rest : List Char} (split : text = stretch ++ rest) (ne_nil : stretch ≠ [])
      (within : ',' ∉ stretch) (stop : ∀ c, rest.head? = some c → c = ',')
      (none : ∀ head name args rest, ¬ Functional text head name args rest) :
      Reads text stretch rest

theorem Functional.split {text head name args rest : List Char}
    (h : Functional text head name args rest) :
    text = (head ++ ':' :: (name ++ '(' :: (args ++ [')']))) ++ rest := by
  obtain ⟨call, rfl, hcall⟩ := h.call
  rw [hcall.split]
  simp

theorem Functional.head?_ne {text head name args rest : List Char}
    (h : Functional text head name args rest) : text.head? ≠ some ',' := by
  rw [h.split]
  cases head with
  | nil => simp
  | cons c head =>
    intro he
    exact h.plain (List.mem_cons.2 (.inl (Option.some.inj he).symm))

namespace Reads

variable {text stretch rest stretch' rest' : List Char}

theorem split (h : Reads text stretch rest) : text = stretch ++ rest := by
  cases h with
  | functional here last => exact here.split
  | plain split ne_nil within stop none => exact split

theorem ne_nil (h : Reads text stretch rest) : stretch ≠ [] := by
  cases h with
  | functional here last => simp
  | plain split ne_nil within stop none => exact ne_nil

theorem head?_ne (h : Reads text stretch rest) : text.head? ≠ some ',' := by
  cases h with
  | functional here last => exact here.head?_ne
  | plain split ne_nil within stop none =>
    obtain ⟨c, others, rfl⟩ := List.exists_cons_of_ne_nil ne_nil
    rw [split]
    intro he
    exact within (List.mem_cons.2 (.inl (Option.some.inj he).symm))

theorem ends (h : Reads text stretch rest) :
    stretch.getLast? = some ')' ∨ ∀ c, rest.head? = some c → c = ',' := by
  cases h with
  | @functional head name args _ here last =>
    refine .inl (List.getLast?_eq_some_iff.2 ⟨head ++ ':' :: (name ++ '(' :: args), ?_⟩)
    simp
  | plain split ne_nil within stop none => exact .inr stop

theorem eq_takeWhile (split : text = stretch ++ rest) (within : ',' ∉ stretch)
    (stop : ∀ c, rest.head? = some c → c = ',') : stretch = text.takeWhile (· != ',') := by
  have hall : ∀ c ∈ stretch, (c != ',') = true := fun c hc => by
    simpa using fun he : c = ',' => within (he ▸ hc)
  rw [split, List.takeWhile_append_of_pos hall]
  cases rest with
  | nil => simp
  | cons c others =>
    obtain rfl : c = ',' := stop c rfl
    simp

theorem stretch_unique (h : Reads text stretch rest) (h' : Reads text stretch' rest') :
    stretch = stretch' := by
  cases h with
  | @functional head name args _ here last =>
    cases h' with
    | @functional head' name' args' _ here' last' =>
      -- each of the two colons is the last one, and each of the names is the longest one
      have hle := last _ _ _ _ here'
      have hge := last' _ _ _ _ here
      have hhead : head.length = head'.length := by omega
      have hname : name.length = name'.length := by omega
      obtain ⟨call, htext, hcall⟩ := here.call
      obtain ⟨call', htext', hcall'⟩ := here'.call
      obtain ⟨rfl, hcalls⟩ := List.append_inj (htext.symm.trans htext') hhead
      obtain rfl : call = call' := (List.cons.inj hcalls).2
      obtain ⟨rfl, hargs⟩ := List.append_inj (hcall.split.symm.trans hcall'.split) hname
      have hlength := hcall.argumentsLength_eq.symm.trans hcall'.argumentsLength_eq
      have hargument : args.length = args'.length := by simpa using hlength
      obtain ⟨rfl, -⟩ := List.append_inj (List.cons.inj hargs).2 hargument
      rfl
    | plain split ne_nil within stop none => exact absurd here (none _ _ _ _)
  | plain split ne_nil within stop none =>
    cases h' with
    | functional here' last' => exact absurd here' (none _ _ _ _)
    | plain split' ne_nil' within' stop' none' =>
      rw [eq_takeWhile split within stop, eq_takeWhile split' within' stop']

theorem unique (h : Reads text stretch rest) (h' : Reads text stretch' rest') :
    stretch = stretch' ∧ rest = rest' := by
  obtain rfl := h.stretch_unique h'
  exact ⟨rfl, List.append_cancel_left (h.split.symm.trans h'.split)⟩

end Reads

theorem reads_of_partLength {text : List Char} {n : Nat} (h : partLength text = some n) :
    Reads text (text.take n) (text.drop n) := by
  unfold partLength at h
  split at h
  · next m hm =>
    obtain rfl : m = n := Option.some.inj h
    obtain ⟨head, name, args, rest, here, hlength, last⟩ :=
      exists_functional_of_functionalLength hm
    have hsplit := here.split
    rw [hlength, hsplit, List.take_left, List.drop_left, ← hsplit]
    exact .functional here last
  · next hnone =>
    split at h
    · cases h
    · next hpos =>
      obtain rfl : runLength text = n := Option.some.inj h
      have hsplit : text = text.takeWhile (· != ',') ++ text.dropWhile (· != ',') :=
        List.takeWhile_append_dropWhile.symm
      have hrun : text.take (runLength text) = text.takeWhile (· != ',') :=
        (congrArg (List.take (runLength text)) hsplit).trans List.take_left
      have hrest : text.drop (runLength text) = text.dropWhile (· != ',') :=
        (congrArg (List.drop (runLength text)) hsplit).trans List.drop_left
      refine .plain (List.take_append_drop _ _).symm (fun hnil => ?_) (fun hm => ?_)
        (fun c hc => ?_) fun head name args rest here => functionalLength_ne_none here hnone
      · rw [hrun] at hnil
        exact hpos (by rw [runLength, hnil, List.length_nil])
      · rw [hrun] at hm
        simpa using List.mem_takeWhile_imp hm
      · rw [hrest] at hc
        have hne : text.dropWhile (· != ',') ≠ [] := fun hnil => by
          rw [hnil] at hc
          cases hc
        have hstop := List.head_dropWhile_not (· != ',') hne
        rw [List.head?_eq_some_head hne] at hc
        rw [Option.some.inj hc] at hstop
        simpa using hstop

theorem partLength_ne_none {c : Char} (rest : List Char) (h : c ≠ ',') :
    partLength (c :: rest) ≠ none := by
  have hpos : runLength (c :: rest) ≠ 0 := by
    rw [runLength, List.takeWhile_cons_of_pos (by simpa using h)]
    simp
  unfold partLength
  split
  · simp
  · rw [if_neg hpos]
    simp

theorem exists_reads {c : Char} (rest : List Char) (h : c ≠ ',') :
    ∃ n, partLength (c :: rest) = some n ∧
      Reads (c :: rest) ((c :: rest).take n) ((c :: rest).drop n) := by
  obtain ⟨n, hn⟩ := Option.ne_none_iff_exists'.1 (partLength_ne_none rest h)
  exact ⟨n, hn, reads_of_partLength hn⟩

end Theming.Selector
