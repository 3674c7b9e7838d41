import PhpScript.Predefined
import PhpScript.Proofs.Request.Trees

/-!
# The values at the start

The predefined variables and the constants are regular whatever the request is.
-/

namespace PhpScript

def RegularBinding (_ : String) (value : Value) : Prop := value.Regular

namespace Predefined

theorem regularEntry_pairs (entries : List (String × String)) :
    ∀ entry ∈ entries.map fun (name, value) => (Key.ofString name, Value.str value),
      RegularEntry entry.1 entry.2 := by
  intro entry member
  rcases List.mem_map.mp member with ⟨pair, _, rfl⟩
  exact ⟨Key.isCanonical_ofString _, Value.regular_str _⟩

theorem admits_pairs (entries : List (String × String)) : (pairs entries).Admits RegularEntry :=
  .ofList (regularEntry_pairs entries)

theorem admits_arguments (request : Request) (filename : String) :
    (arguments request filename).Admits RegularEntry := by
  refine Value.admits_elements_of_values fun value member => ?_
  rcases List.mem_cons.mp member with rfl | given
  · exact Value.regular_str _
  · rcases List.mem_map.mp given with ⟨_, _, rfl⟩
    exact Value.regular_str _

theorem admits_server (request : Request) (filename : String) (now : Moment) :
    (server request filename now).Admits RegularEntry := by
  refine ((admits_pairs _).insertAll ?_).insertAll (regularEntry_pairs _)
  refine regularEntry_of_mem ?_ ?_
  · simp only [List.map_cons, List.map_nil]
    decide
  · simp only [List.map_cons, List.map_nil]
    simp [admits_arguments]

theorem admits_bindings (request : Request) (filename : String) (now : Moment) :
    (bindings request filename now).Admits RegularBinding := by
  have query := Form.regular_of_inputs (Form.admits_query request.query)
  have body := Form.regular_of_inputs (Form.admits_query request.body)
  have cookies := Form.regular_of_inputs (Form.admits_cookies request.cookie)
  have server := admits_server request filename now
  have ofServer := fun name => server.regular_getD (.str name) Value.regular_null
  refine .ofList ?_
  simp only [List.forall_mem_cons, RegularBinding, Value.regular_array_iff]
  exact ⟨query, body, cookies, (query.insertAll body.entries).insertAll cookies.entries,
    admits_pairs _, .empty, server, ofServer _, ofServer _, by simp⟩

theorem admits_constants : (Table.ofList constants).Admits RegularBinding := by
  have plain : ∀ entry ∈ constants, entry.2.isPlain = true := by decide
  exact .ofList fun entry member => Value.regular_of_isPlain (plain entry member)

end Predefined

end PhpScript
