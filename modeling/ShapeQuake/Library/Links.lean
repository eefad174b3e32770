import Mathlib.Data.List.Chain
import Mathlib.Data.List.Nodup

/-! Lists whose nodes are found by address and hold the address of the next one. That
links lead somewhere at all, and end, is a property of what is stored; a walk says it. -/
namespace ShapeQuake.Library.Links

section
variable {Address Node : Type _} {look : Address → Option Node} {next : Node → Option Address}

/-- From a link on these nodes follow, and behind the last of them is no other. -/
inductive Walk (look : Address → Option Node) (next : Node → Option Address) :
    Option Address → List Node → Prop
  | null : Walk look next none []
  | node (there : look address = some first) (behind : Walk look next (next first) rest) :
      Walk look next (some address) (first :: rest)

theorem walk_head (walk : Walk look next (some address) nodes) :
    ∃ first ∈ nodes.head?, look address = some first := by
  cases walk with
  | node there _ => exact ⟨_, rfl, there⟩

/-- A link leads to one list of nodes only. -/
theorem walk_unique (walk : Walk look next start nodes) (again : Walk look next start others) :
    nodes = others := by
  induction walk generalizing others with
  | null =>
    cases again
    rfl
  | node there _ ih =>
    cases again with
    | node found behind =>
      obtain rfl := Option.some.inj (there.symm.trans found)
      rw [ih behind]

/-- Behind a node its own link leads on. -/
theorem walk_behind (walk : Walk look next start (before ++ node :: after)) :
    Walk look next (next node) after := by
  induction before generalizing start with
  | nil =>
    cases walk with
    | node _ behind => exact behind
  | cons first rest ih =>
    cases walk with
    | node _ behind => exact ih behind

/-- A walk that ends does not come back to a node: from there it would go on for ever. -/
theorem walk_nodup (walk : Walk look next start nodes) : nodes.Nodup := by
  induction walk with
  | null => exact List.nodup_nil
  | @node _ first rest _ behind ih =>
    refine List.nodup_cons.mpr ⟨fun member => ?_, ih⟩
    obtain ⟨before, after, split⟩ := List.append_of_mem member
    have shorter : rest = after := walk_unique behind (walk_behind (split ▸ behind))
    have lengths := congrArg List.length (shorter.symm.trans split)
    rw [List.length_append, List.length_cons] at lengths
    omega

theorem walk_found (walk : Walk look next start nodes) (member : node ∈ nodes) :
    ∃ address, look address = some node := by
  induction walk with
  | null => cases member
  | node there _ ih =>
    rcases List.mem_cons.mp member with rfl | later
    · exact ⟨_, there⟩
    · exact ih later

/-- Where nodes know their addresses, the addresses on a walk are distinct. -/
theorem walk_addresses_nodup {name : Node → Address}
    (named : ∀ address node, look address = some node → name node = address)
    (walk : Walk look next start nodes) : (nodes.map name).Nodup := by
  apply List.Nodup.map_on _ (walk_nodup walk)
  intro first member second other same
  obtain ⟨address, found⟩ := walk_found walk member
  obtain ⟨address₂, found₂⟩ := walk_found walk other
  rw [← named address first found, same, named address₂ second found₂] at found
  exact Option.some.inj (found.symm.trans found₂)

/-- What neighbours on a walk are to each other, a node is to the one its link leads to. -/
theorem walk_neighbours {related : Node → Node → Prop} (walk : Walk look next start nodes)
    (chain : nodes.IsChain related) (member : node ∈ nodes) (link : next node = some address) :
    ∃ following, look address = some following ∧ related node following := by
  induction walk with
  | null => cases member
  | node _ behind ih =>
    rcases List.mem_cons.mp member with rfl | later
    · rw [link] at behind
      cases behind with
      | node found _ => exact ⟨_, found, (List.isChain_cons_cons.mp chain).1⟩
    · exact ih (List.isChain_of_isChain_cons chain) later

end

end ShapeQuake.Library.Links
