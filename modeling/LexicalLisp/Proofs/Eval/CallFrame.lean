import LexicalLisp.Proofs.Store.Writes
import Mathlib.Data.List.Induction

/-!
# The frame of a call

Parameters are not looked at when a closure is made, so a call may meet any list of values in their
place: repeated names, things that are no names, too many or too few. The count is compared first,
then the first parameter that is no symbol refuses the call, and only a call that is not refused
opens a frame.

The frame is inside the frame that the closure captured. A repeated parameter has the place of its
first occurrence and the argument of its last. A name that is no parameter is found from the new
frame where it is found from the captured one. For this it is assumed that outer links lead to
frames that exist; frames may be in any order.
-/

namespace LexicalLisp

namespace Bindings

/-- Bind names to values one after another. -/
def putEach (bindings : Bindings) (pairs : List (String × Value)) : Bindings :=
  pairs.foldl (fun bound pair => bound.put pair.1 pair.2) bindings

/-- Names that are bound one after another stand in the order of their first occurrence. -/
theorem names_putEach (pairs : List (String × Value)) :
    (putEach [] pairs).names = (pairs.map Prod.fst).eraseDups := by
  induction pairs using List.reverseRecOn with
  | nil => rfl
  | append_singleton pairs pair ih =>
    have hlast : putEach [] (pairs ++ [pair]) = (putEach [] pairs).put pair.1 pair.2 := by
      rw [putEach, List.foldl_append]
      rfl
    rw [hlast, names_put, ih, List.map_append, List.eraseDups_append]
    by_cases hmem : pair.1 ∈ pairs.map Prod.fst
    · simp [List.mem_eraseDups, List.removeAll, hmem]
    · simp [List.mem_eraseDups, List.removeAll, hmem, List.eraseDups_cons]

/-- Binding other names leaves a name alone. -/
theorem get?_putEach_of_not_mem {name : String} {pairs : List (String × Value)}
    (h : name ∉ pairs.map Prod.fst) (bindings : Bindings) :
    (bindings.putEach pairs).get? name = bindings.get? name := by
  induction pairs generalizing bindings with
  | nil => rfl
  | cons pair rest ih =>
    rw [List.map_cons, List.mem_cons, not_or] at h
    calc (bindings.putEach (pair :: rest)).get? name
      _ = (bindings.put pair.1 pair.2).get? name := ih h.2 _
      _ = bindings.get? name := get?_put_of_ne h.1 _ _

/-- A name has the value that it is bound to last. -/
theorem get?_putEach_of_last {names : List String} {values : List Value}
    (hlength : values.length = names.length) {i : Nat} {name : String}
    (hname : names[i]? = some name) (hlast : ∀ j, i < j → names[j]? ≠ some name)
    (bindings : Bindings) :
    (bindings.putEach (names.zip values)).get? name = values[i]? := by
  induction names generalizing values i bindings with
  | nil => simp at hname
  | cons first names ih =>
    cases values with
    | nil => simp at hlength
    | cons value values =>
      have hlength' : values.length = names.length := Nat.succ.inj hlength
      cases i with
      | zero =>
        obtain rfl : first = name := Option.some.inj hname
        have hother : first ∉ (names.zip values).map Prod.fst := by
          rw [List.map_fst_zip (Nat.le_of_eq hlength'.symm)]
          intro hmem
          obtain ⟨j, hj⟩ := List.getElem?_of_mem hmem
          exact hlast (j + 1) (Nat.succ_pos j) hj
        calc (bindings.putEach ((first, value) :: names.zip values)).get? first
          _ = (bindings.put first value).get? first := get?_putEach_of_not_mem hother _
          _ = some value := get?_put_self first value bindings
      | succ i =>
        exact ih hlength' hname (fun j hj => hlast (j + 1) (Nat.succ_lt_succ hj)) _

end Bindings

/-- Parameters that are symbols are bound one after another. -/
theorem bindFormals_symbols (names : List String) (values : List Value) (bindings : Bindings) :
    bindFormals bindings ((names.map .symbol).zip values) =
      .ok (bindings.putEach (names.zip values)) := by
  induction names generalizing values bindings with
  | nil => rfl
  | cons name names ih =>
    cases values with
    | nil => rfl
    | cons value values => exact ih values (bindings.put name value)

/-- The first parameter that is no symbol, if there is one. -/
def refusedFormal? (formals : List Value) : Option Value :=
  formals.find? (·.symbolName?.isNone)

/-- The parameter that is refused is one of the parameters and no symbol. -/
theorem refused_of_refusedFormal? {formals : List Value} {formal : Value}
    (h : refusedFormal? formals = some formal) :
    formal ∈ formals ∧ ∀ name, formal ≠ .symbol name := by
  refine ⟨List.mem_of_find?_eq_some h, ?_⟩
  rintro name rfl
  cases List.find?_some h

/-- If no parameter is refused, all of them are symbols. -/
theorem exists_names_of_refusedFormal? {formals : List Value} (h : refusedFormal? formals = none) :
    ∃ names : List String, formals = names.map .symbol := by
  induction formals with
  | nil => exact ⟨[], rfl⟩
  | cons formal rest ih =>
    cases formal with
    | symbol name =>
      obtain ⟨names, rfl⟩ := ih h
      exact ⟨name :: names, rfl⟩
    | _ => cases h

/-- A refused parameter is named by the error, whatever is bound before it. -/
theorem bindFormals_of_refused {formals arguments : List Value} {formal : Value}
    (hlength : arguments.length = formals.length) (h : refusedFormal? formals = some formal)
    (bindings : Bindings) :
    bindFormals bindings (formals.zip arguments) = .error (.bindNonSymbol formal) := by
  induction formals generalizing arguments bindings with
  | nil => cases h
  | cons first rest ih =>
    cases arguments with
    | nil => cases hlength
    | cons value values =>
      cases first with
      | symbol name => exact ih (Nat.succ.inj hlength) h _
      | _ =>
        obtain rfl := Option.some.inj h
        rfl

namespace Store

/-- A frame that binds a name to a value is where the value is found from. -/
theorem lookup?_of_get? {s : Store} {e : FrameId} {name : String} {value : Value}
    (h : s.get? e name = some value) : s.lookup? e name = some value := by
  have hbinds : s.binds e name = true := by
    rw [binds, h]
    rfl
  have he := lt_size_of_binds hbinds
  obtain ⟨bound, hbound⟩ := Nat.exists_eq_succ_of_ne_zero (Nat.ne_zero_of_lt he)
  rw [lookup?, chain, hbound, chainWithin_succ he, List.findSome?_cons, h]

/-- What frames bind after a frame is added. -/
theorem get?_push (s : Store) (frame : Frame) (g : FrameId) (name : String) :
    (s.push frame).get? g name =
      if g = s.frames.size then frame.bindings.get? name else s.get? g name := by
  rw [get?, bindingsOf_push]
  split <;> rfl

section Linked

variable {s : Store} (hlinked : ∀ {e o : FrameId}, s.outerOf e = some o → o < s.frames.size)
  {frame : Frame} {outer : FrameId} (houter : frame.outer = some outer)
  (hexists : outer < s.frames.size)

include hlinked in
/-- A new frame is on no chain that starts from another one. -/
theorem chainWithin_push (frame : Frame) (bound : Nat) {link : Option FrameId}
    (hlink : ∀ e, link = some e → e < s.frames.size) :
    (s.push frame).chainWithin bound link = s.chainWithin bound link := by
  induction bound generalizing link with
  | zero => rfl
  | succ bound ih =>
    cases link with
    | none => rfl
    | some e =>
      have he := hlink e rfl
      have hpushed : e < (s.push frame).frames.size := by
        rw [size_push]
        exact Nat.lt_succ_of_lt he
      rw [chainWithin_succ he, chainWithin_succ hpushed, outerOf_push, if_neg (Nat.ne_of_lt he),
        ih fun o ho => hlinked ho]

include hlinked houter hexists

/-- The chain of a new frame goes on with that of the frame it is inside of. -/
theorem chain_push : (s.push frame).chain s.frames.size = s.frames.size :: s.chain outer := by
  have hnew : s.frames.size < (s.push frame).frames.size := by
    rw [size_push]
    exact Nat.lt_succ_self _
  have hlink : ∀ e, some outer = some e → e < s.frames.size := fun e he =>
    Option.some.inj he ▸ hexists
  rw [chain, size_push, chainWithin_succ hnew, outerOf_push, if_pos rfl, houter,
    chainWithin_push hlinked frame _ hlink, chain]

/-- A name that a new frame does not bind is found where it is found from the frame around it. -/
theorem find?_push_of_not_bound {name : String} (h : frame.bindings.get? name = none) :
    (s.push frame).find? s.frames.size name = s.find? outer name := by
  have hold : ∀ g ∈ s.chain outer, (s.push frame).binds g name = s.binds g name := by
    intro g hg
    rw [binds, get?_push, if_neg (Nat.ne_of_lt (lt_size_of_mem_chainWithin hg))]
    rfl
  have hnew : (s.push frame).binds s.frames.size name = false := by
    rw [binds, get?_push, if_pos rfl, h]
    rfl
  rw [find?, chain_push hlinked houter hexists, List.find?_cons, hnew]
  exact List.find?_congr hold

/-- Such a name also has the value it has there. -/
theorem lookup?_push_of_not_bound {name : String} (h : frame.bindings.get? name = none) :
    (s.push frame).lookup? s.frames.size name = s.lookup? outer name := by
  have hold : ∀ g ∈ s.chain outer, (s.push frame).get? g name = s.get? g name := by
    intro g hg
    rw [get?_push, if_neg (Nat.ne_of_lt (lt_size_of_mem_chainWithin hg))]
  rw [lookup?, chain_push hlinked houter hexists, List.findSome?_cons, get?_push, if_pos rfl, h]
  change (s.chain outer).findSome? _ = (s.chain outer).findSome? _
  rw [← List.head?_filterMap, ← List.head?_filterMap, List.filterMap_congr hold]

end Linked

/-- The second store is the first one with a frame for a call of these parameters.

Its names are the different parameters in the order of their first occurrence, each with the
argument at its last position. Every other name is found where it is found from the captured frame,
and has the value it has there or none. -/
structure Opens (s t : Store) (c : FrameId) (names : List String) (arguments : List Value) :
    Prop where
  added : t.frames.size = s.frames.size + 1
  outer_eq : t.outerOf s.frames.size = some c
  names_eq : (t.bindingsOf s.frames.size).names = names.eraseDups
  last_argument : ∀ (i : Nat) (name : String), names[i]? = some name →
    (∀ j, i < j → names[j]? ≠ some name) → t.get? s.frames.size name = arguments[i]?
  elsewhere : (∀ e o : FrameId, s.outerOf e = some o → o < s.frames.size) → c < s.frames.size →
    ∀ name, name ∉ names → t.find? s.frames.size name = s.find? c name ∧
      t.lookup? s.frames.size name = s.lookup? c name

/-- A frame with the parameters bound one after another is one for their call. -/
theorem opens_push {names : List String} {arguments : List Value}
    (hlength : arguments.length = names.length) (s : Store) (c : FrameId) :
    s.Opens (s.push ⟨some c, Bindings.putEach [] (names.zip arguments)⟩) c names arguments where
  added := size_push s _
  outer_eq := by rw [outerOf_push, if_pos rfl]
  names_eq := by
    rw [bindingsOf_push, if_pos rfl, Bindings.names_putEach,
      List.map_fst_zip (Nat.le_of_eq hlength.symm)]
  last_argument i name hname hlast := by
    rw [get?_push, if_pos rfl]
    exact Bindings.get?_putEach_of_last hlength hname hlast []
  elsewhere hlinked hexists name hname := by
    have hother : (Bindings.putEach [] (names.zip arguments)).get? name = none := by
      rw [Bindings.get?_putEach_of_not_mem]
      · rfl
      · rwa [List.map_fst_zip (Nat.le_of_eq hlength.symm)]
    exact ⟨find?_push_of_not_bound (hlinked _ _) rfl hexists hother,
      lookup?_push_of_not_bound (hlinked _ _) rfl hexists hother⟩

end Store

section Calls

variable (closure : Value) (formals arguments : List Value) (c : FrameId) (s : State)

/-- A call is refused because of its count, or because of a parameter, or opens a frame with the
parameters bound in it. -/
theorem callFrame_cases :
    (arguments.length ≠ formals.length ∧ callFrame closure formals c arguments s =
      (.error (.argumentCount closure formals.length arguments.length), s)) ∨
    (arguments.length = formals.length ∧ ∃ formal, refusedFormal? formals = some formal ∧
      callFrame closure formals c arguments s = (.error (.bindNonSymbol formal), s)) ∨
    (arguments.length = formals.length ∧ ∃ names : List String, formals = names.map .symbol ∧
      callFrame closure formals c arguments s = (.ok s.store.frames.size,
        { s with store := s.store.push ⟨some c, Bindings.putEach [] (names.zip arguments)⟩ })) := by
  by_cases h : arguments.length = formals.length
  · refine .inr ?_
    rw [callFrame_eq c h]
    cases hformal : refusedFormal? formals with
    | some formal =>
      rw [bindFormals_of_refused h hformal]
      exact .inl ⟨h, formal, rfl, rfl⟩
    | none =>
      obtain ⟨names, rfl⟩ := exists_names_of_refusedFormal? hformal
      rw [bindFormals_symbols]
      exact .inr ⟨h, names, rfl, rfl⟩
  · exact .inl ⟨h, callFrame_of_length_ne h closure c s⟩

end Calls

/-- How a call binds its parameters.

A call changes no frame that exists and records nothing before it is entered. It is refused because
of the number of arguments exactly when that is not the number of parameters, whatever these are;
otherwise because of a parameter exactly when one of them is no symbol, and the error names the
first such. If it is not refused, it opens a frame inside the captured one. -/
theorem call_frame_binds_formals (tag : Nat) (formals : List Value) (body : Value) (c : FrameId)
    (arguments : List Value) (s : State) :
    let closure := Value.closure tag formals body c
    let result := callFrame closure formals c arguments s
    (∀ g < s.store.frames.size, result.2.store.frames[g]? = s.store.frames[g]?) ∧
    result.2.log = s.log ∧
    ((∃ d, result.1 = .error d ∧ d.kind = .arity) ↔ arguments.length ≠ formals.length) ∧
    (arguments.length ≠ formals.length →
      result = (.error (.argumentCount closure formals.length arguments.length), s)) ∧
    (arguments.length = formals.length →
      ((∃ d, result.1 = .error d ∧ d.kind = .invalidSymbol) ↔
        ∃ formal ∈ formals, ∀ name, formal ≠ .symbol name) ∧
      ∀ d, result.1 = .error d → result.2 = s ∧
        ∃ formal, formals.find? (·.symbolName?.isNone) = some formal ∧ d = .bindNonSymbol formal ∧
          d.message = "Cannot define " ++ formal.display ++ " as a symbol") ∧
    (arguments.length = formals.length → (∀ formal ∈ formals, ∃ name, formal = .symbol name) →
      ∃ names t, formals = names.map .symbol ∧ result = (.ok s.store.frames.size, t) ∧
        s.store.Opens t.store c names arguments) := by
  intro closure result
  rcases callFrame_cases closure formals arguments c s with
    ⟨hlength, hresult⟩ | ⟨hlength, formal, hformal, hresult⟩ | ⟨hlength, names, rfl, hresult⟩
  · rw [show result = _ from hresult]
    exact ⟨fun _ _ => rfl, rfl, iff_of_true ⟨_, rfl, rfl⟩ hlength, fun _ => rfl,
      fun h => absurd h hlength, fun h => absurd h hlength⟩
  · rw [show result = _ from hresult]
    obtain ⟨hmem, hsymbol⟩ := refused_of_refusedFormal? hformal
    refine ⟨fun _ _ => rfl, rfl, iff_of_false ?_ (not_not_intro hlength), fun h => absurd hlength h,
      fun _ => ⟨iff_of_true ⟨_, rfl, rfl⟩ ⟨formal, hmem, hsymbol⟩, ?_⟩, fun _ hall => ?_⟩
    · rintro ⟨d, hd, hkind⟩
      obtain rfl := Outcome.error.inj hd
      cases hkind
    · intro d hd
      obtain rfl := Outcome.error.inj hd
      exact ⟨rfl, formal, hformal, rfl, rfl⟩
    · obtain ⟨name, rfl⟩ := hall formal hmem
      exact absurd rfl (hsymbol name)
  · rw [show result = _ from hresult]
    refine ⟨fun g hg => ?_, rfl, iff_of_false ?_ (not_not_intro hlength), fun h => absurd hlength h,
      fun _ => ⟨iff_of_false ?_ ?_, nofun⟩, fun _ _ => ⟨names, _, rfl, rfl, ?_⟩⟩
    · exact Store.getElem?_frames_push_of_ne (Nat.ne_of_lt hg) _
    · rintro ⟨d, hd, -⟩
      cases hd
    · rintro ⟨d, hd, -⟩
      cases hd
    · rintro ⟨formal, hmem, hsymbol⟩
      obtain ⟨name, -, rfl⟩ := List.mem_map.mp hmem
      exact hsymbol name rfl
    · rw [List.length_map] at hlength
      exact Store.opens_push hlength s.store c

/-- A repeated parameter has its first place and its last argument, and other names are found
outside. With a list in place of the second parameter the call is refused because of it. -/
theorem call_frame_binds_formals_repeated :
    let formals : List Value := [.symbol "x", .symbol "y", .symbol "x"]
    let broken : List Value := [.symbol "x", .list [], .boolean true]
    let arguments : List Value := [.boolean true, .boolean false, .list []]
    let s : State := { store := ⟨#[⟨none, [("y", .list []), ("z", .boolean true)]⟩], 0⟩ }
    (∃ t, callFrame (.closure 0 formals (.symbol "z") 0) formals 0 arguments s = (.ok 1, t) ∧
      (t.store.bindingsOf 1).names = ["x", "y"] ∧
      t.store.get? 1 "x" = some (.list []) ∧ t.store.lookup? 1 "z" = some (.boolean true)) ∧
    ∃ d, (callFrame (.closure 0 broken (.symbol "z") 0) broken 0 arguments s).1 = .error d ∧
      d.kind = .invalidSymbol := by
  intro formals broken arguments s
  obtain ⟨-, -, -, -, -, hopened⟩ :=
    call_frame_binds_formals 0 formals (.symbol "z") 0 arguments s
  obtain ⟨-, -, -, -, hrefused, -⟩ :=
    call_frame_binds_formals 0 broken (.symbol "z") 0 arguments s
  obtain ⟨names, t, hnames, hresult, hopens⟩ := hopened rfl (by simp [formals])
  obtain rfl : ["x", "y", "x"] = names :=
    List.map_injective_iff.mpr (fun _ _ => Value.symbol.inj) hnames
  have hlinked : ∀ e o : FrameId, s.store.outerOf e = some o → o < s.store.frames.size := by
    intro e o houter
    match e with
    | 0 => cases houter
    | _ + 1 => cases houter
  refine ⟨⟨t, hresult, ?_, ?_, ?_⟩, (hrefused rfl).1.mpr ⟨.list [], by simp [broken], nofun⟩⟩
  · exact hopens.names_eq.trans (by decide)
  · refine hopens.last_argument 2 "x" rfl fun j hj => ?_
    rw [List.getElem?_eq_none hj]
    exact nofun
  · exact (hopens.elsewhere hlinked (by decide) "z" (by decide)).2

end LexicalLisp
