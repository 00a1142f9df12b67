import TokenDispatch.Proofs.Acceptance

/-!
What a pass over a list does to the tokens of its methods. They are written before a method is
looked at, so those that were there make no difference; nothing else in a method is changed, and a
second pass over the same list writes the same again.
-/

namespace TokenDispatch

namespace Method

/-- A method but for its token. -/
def unmarked (m : Method) : Method := { m with token := none }

theorem withToken_congr {m n : Method} (alike : m.unmarked = n.unmarked) (token : Option Token) :
    ({ m with token := token } : Method) = { n with token := token } := by
  have same := congrArg (fun k : Method => ({ k with token := token } : Method)) alike
  exact same

end Method

section

variable {methods others : List Method}

theorem length_of_unmarked (alike : methods.map Method.unmarked = others.map Method.unmarked) :
    methods.length = others.length := by
  simpa using congrArg List.length alike

/-- Marks are the same on methods that differ in their tokens, as far as there are tokens. -/
theorem markTokens_congr (alike : methods.map Method.unmarked = others.map Method.unmarked)
    (few : methods.length ≤ Token.limit) : markTokens methods = markTokens others := by
  refine List.ext_getElem? fun i => ?_
  have at_ := congrArg (·[i]?) alike
  simp only [List.getElem?_map] at at_
  rw [markTokens_getElem?, markTokens_getElem?]
  cases found : methods[i]? with
  | none =>
      rw [found] at at_
      rw [Option.map_eq_none_iff.mp at_.symm]
  | some m =>
      rw [found] at at_
      obtain ⟨n, found', same⟩ := Option.map_eq_some_iff.mp at_.symm
      obtain ⟨bound, -⟩ := List.getElem?_eq_some_iff.mp found
      obtain ⟨t, numbered, -⟩ := Token.ofPosition?_of_lt (Nat.lt_of_lt_of_le bound few)
      rw [found', numbered]
      exact congrArg some (Method.withToken_congr same.symm (some t))

theorem unmarked_markTokens (methods : List Method) :
    (markTokens methods).map Method.unmarked = methods.map Method.unmarked := by
  refine List.ext_getElem? fun i => ?_
  rw [List.getElem?_map, List.getElem?_map, markTokens_getElem?, Option.map_map]
  rfl

theorem markTokens_markTokens (methods : List Method) :
    markTokens (markTokens methods) = markTokens methods := by
  refine List.ext_getElem? fun i => ?_
  rw [markTokens_getElem?, markTokens_getElem?, Option.map_map]
  cases Token.ofPosition? i <;> rfl

/-! Passes. -/

variable {σ L O : Type} [Emitter σ L O] (options : Options) (unit : String)

/-- On any emitter, a pass comes to the same whatever tokens the methods carry. -/
theorem generate_congr (alike : methods.map Method.unmarked = others.map Method.unmarked) (s : σ) :
    (generate options unit methods s).result = (generate options unit others s).result ∧
      (generate options unit methods s).emitter = (generate options unit others s).emitter := by
  have length := length_of_unmarked alike
  rcases opening : (emitOpening options unit s : Except EmitError Unit × σ) with ⟨e | _, t⟩
  · rw [generate_of_unopened methods opening, generate_of_unopened others opening]
    exact ⟨rfl, rfl⟩
  · by_cases few : methods.length ≤ Token.limit
    · rcases routines : (emitRoutines options unit (.ofCount methods.length)
        (markTokens methods) t : Except EmitError O × σ) with ⟨output, u⟩
      rw [generate_of_routines methods few opening routines]
      rw [length, markTokens_congr alike few] at routines
      rw [generate_of_routines others (length ▸ few) opening routines, length]
      exact ⟨rfl, rfl⟩
    · have many := Nat.lt_of_not_le few
      rw [generate_of_long methods many opening, generate_of_long others (length ▸ many) opening,
        length]
      exact ⟨rfl, rfl⟩

/-- Once the unit is opened the tokens are written, whatever comes of the routines. -/
theorem generate_methods_of_opened {s t : σ}
    (opening : @Eq (Except EmitError Unit × σ) (emitOpening options unit s) (.ok (), t)) :
    (generate options unit methods s).methods = markTokens methods := by
  by_cases few : methods.length ≤ Token.limit
  · rw [generate_of_routines methods few opening rfl]
  · rw [generate_of_long methods (Nat.lt_of_not_le few) opening]

theorem generate_methods :
    (generate options unit methods ({} : Assembler)).methods = markTokens methods := by
  obtain ⟨a, opening⟩ := emitOpening_accepted options unit
  exact generate_methods_of_opened options unit opening

theorem generate_again :
    generate options unit (generate options unit methods ({} : Assembler)).methods
      ({} : Assembler) = generate options unit methods ({} : Assembler) := by
  rw [generate_methods]
  obtain ⟨result, emitter⟩ :=
    generate_congr options unit (unmarked_markTokens methods) ({} : Assembler)
  ext1
  · exact result
  · rw [generate_methods, generate_methods, markTokens_markTokens]
  · exact emitter

end

/-- Lists that differ in the tokens of their methods at most have one result, be it a unit or an
error. Whichever it is, each method of a list that is not too long then carries the token of its
position and is the same otherwise, so another pass over the list comes to the same in all. -/
theorem generate_renumbers (options : Options) (unit : String) (methods others : List Method)
    (alike : methods.map Method.unmarked = others.map Method.unmarked) :
    (generate options unit methods ({} : Assembler)).result =
        (generate options unit others ({} : Assembler)).result ∧
    (methods.length ≤ 2147483647 →
      (generate options unit methods ({} : Assembler)).methods.length = methods.length ∧
      ∀ (i : Nat) (m : Method), methods[i]? = some m → ∃ t : Token, t.value.toNat = i + 1 ∧
        (generate options unit methods ({} : Assembler)).methods[i]? =
          some { m with token := some t }) ∧
    generate options unit (generate options unit methods ({} : Assembler)).methods
      ({} : Assembler) = generate options unit methods ({} : Assembler) := by
  refine ⟨(generate_congr options unit alike _).1, fun few => ?_, generate_again options unit⟩
  rw [generate_methods]
  exact ⟨markTokens_length methods, markTokens_numbered methods few⟩

/-! A list that no unit is generated for. -/

/-- The second method takes a value of no type. -/
def faulty (first second : Option Token) : List Method :=
  [{ name := "size", declaring := .named "Bag", params := [], ret := .prim .int, token := first },
    { name := "put", declaring := .named "Bag", params := [.void], ret := .void, token := second }]

theorem generate_renumbers_of_faulty :
    (faulty (Token.ofUInt32? 7) (Token.ofUInt32? 7)).map Method.unmarked =
        (faulty none none).map Method.unmarked ∧
      (generate {} "Bags" (faulty none none) ({} : Assembler)).result.isOk = false ∧
      (generate {} "Bags" (faulty (Token.ofUInt32? 7) (Token.ofUInt32? 7))
          ({} : Assembler)).result =
        (generate {} "Bags" (faulty none none) ({} : Assembler)).result ∧
      ∃ t : Token, t.value.toNat = 2 ∧
        (generate {} "Bags" (faulty (Token.ofUInt32? 7) (Token.ofUInt32? 7))
          ({} : Assembler)).methods[1]? =
            some { name := "put", declaring := .named "Bag", params := [.void], ret := .void,
                   token := some t } := by
  have alike : (faulty (Token.ofUInt32? 7) (Token.ofUInt32? 7)).map Method.unmarked =
      (faulty none none).map Method.unmarked := rfl
  obtain ⟨same, written, -⟩ := generate_renumbers {} "Bags" _ _ alike
  exact ⟨alike, by decide +kernel, same, (written (by decide)).2 1 _ rfl⟩

end TokenDispatch
