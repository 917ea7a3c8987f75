import AssetUnpack.Proofs.NodeTree

/-!
# Insertions in place

An index that callers share is changed in place, and a change in place has no way
back. An insertion goes up to the nearest directory that is there and adds what is
missing on its way down again, and it lists every name before it puts the node. If
it failed in between it would leave a name without a node.

It never does (`ensureDirectoryInPlace_eq`, `insertLeafInPlace_eq`): all that can
go wrong is found on the way up, when nothing has been changed yet. So whatever
calls are made, with whatever texts, and however many of them fail, the tree that
they leave is one that successful insertions lead to (`MemoryTree.after_built`).
-/

namespace AssetUnpack

namespace NodeTree

variable {α : Type} {t t' : NodeTree α}

/-- List a name below a path, if a directory is there. -/
def listBelow (parent : AssetPath) (name : Name) (t : NodeTree α) : NodeTree α :=
  match t.get? parent with
  | some (.directory names) => ⟨t.nodes.put parent (.directory (names ++ [name]))⟩
  | _ => t

/-- Add a directory to an index in place. What was changed before a fault stays
changed. -/
def ensureDirectoryInPlace : List Name → EStateM InvalidPath (NodeTree α) Unit
  | [] => do
    match (← get).get? .root with
    | some (.directory _) => return
    | some (.leaf _) => throw ⟨AssetPath.root.text, .fileAsDirectory⟩
    | none => modify fun t => ⟨t.nodes.put .root (.directory [])⟩
  | name :: above => do
    let path : AssetPath := ⟨(name :: above).reverse⟩
    match (← get).get? path with
    | some (.directory _) => return
    | some (.leaf _) => throw ⟨path.text, .fileAsDirectory⟩
    | none =>
      ensureDirectoryInPlace above
      modify (listBelow ⟨above.reverse⟩ name)
      modify fun t => ⟨t.nodes.put path (.directory [])⟩

/-- Add a leaf to an index in place. -/
def insertLeafInPlace (p : AssetPath) (value : α) : EStateM InvalidPath (NodeTree α) Unit := do
  match (← get).get? p with
  | some (.directory _) => throw ⟨p.text, .directoryAsFile⟩
  | some (.leaf _) => modify fun t => ⟨t.nodes.put p (.leaf value)⟩
  | none =>
    match p.names.reverse with
    | [] => throw ⟨p.text, .rootAsFile⟩
    | name :: above =>
      ensureDirectoryInPlace above
      modify (listBelow ⟨above.reverse⟩ name)
      modify fun t => ⟨t.nodes.put p (.leaf value)⟩

/-- How a change in place ends that changes everything or nothing. -/
def landed (t : NodeTree α) :
    Except InvalidPath (NodeTree α) → EStateM.Result InvalidPath (NodeTree α) Unit
  | .ok t' => .ok () t'
  | .error e => .error e t

theorem listBelow_of_directory {parent : AssetPath} {names : List Name}
    (h : t.get? parent = some (.directory names)) (name : Name) :
    t.listBelow parent name =
      ⟨t.nodes.put parent (.directory (t.children parent ++ [name]))⟩ := by
  rw [listBelow, h, children_of_directory h]

theorem directory_of_ensureDirectoryAt {names : List Name}
    (hok : t.ensureDirectoryAt names = .ok t') :
    ∃ children, t'.get? ⟨names.reverse⟩ = some (.directory children) := by
  cases names with
  | nil =>
      rw [ensureDirectoryAt] at hok
      split at hok
      · next children hroot =>
          obtain rfl := Except.ok.inj hok
          exact ⟨children, hroot⟩
      · cases hok
      · obtain rfl := Except.ok.inj hok
        exact ⟨[], by rw [get?_mk_put]; exact if_pos rfl⟩
  | cons name above =>
      rw [ensureDirectoryAt] at hok
      dsimp only at hok
      split at hok
      · next children hdir =>
          obtain rfl := Except.ok.inj hok
          exact ⟨children, hdir⟩
      · cases hok
      split at hok
      · cases hok
      · obtain rfl := Except.ok.inj hok
        exact ⟨[], by rw [get?_mk_put]; exact if_pos rfl⟩

theorem bind_get {β : Type} (f : NodeTree α → EStateM InvalidPath (NodeTree α) β)
    (t : NodeTree α) : (get >>= f) t = f t t := rfl

theorem bind_run {β γ : Type} (x : EStateM InvalidPath (NodeTree α) β)
    (f : β → EStateM InvalidPath (NodeTree α) γ) (t : NodeTree α) :
    (x >>= f) t = match x t with
      | .ok a t' => f a t'
      | .error e t' => .error e t' := by
  show EStateM.bind x f t = _
  unfold EStateM.bind
  cases x t <;> rfl

/-- Below the directory that was asked for a name is listed and a node is put, unless
that directory was refused. -/
theorem attach_landed {above : List Name} (name : Name) (p : AssetPath) (node : Node α)
    (h : ensureDirectoryInPlace above t = t.landed (t.ensureDirectoryAt above)) :
    (do
      ensureDirectoryInPlace above
      modify (listBelow ⟨above.reverse⟩ name)
      modify fun t => ⟨t.nodes.put p node⟩ : EStateM InvalidPath (NodeTree α) Unit) t =
    t.landed (match t.ensureDirectoryAt above with
      | .error e => .error e
      | .ok t => .ok ⟨(t.nodes.put ⟨above.reverse⟩
          (.directory (t.children ⟨above.reverse⟩ ++ [name]))).put p node⟩) := by
  rw [bind_run, h]
  cases hok : t.ensureDirectoryAt above with
  | error e => rfl -- nothing was changed yet
  | ok t' =>
      obtain ⟨children, hparent⟩ := directory_of_ensureDirectoryAt hok
      exact congrArg (fun below : NodeTree α => t.landed (.ok ⟨below.nodes.put p node⟩))
        (listBelow_of_directory hparent name)

/-- Adding a directory in place changes all that has to be changed, or nothing. -/
theorem ensureDirectoryInPlace_eq (names : List Name) (t : NodeTree α) :
    ensureDirectoryInPlace names t = t.landed (t.ensureDirectoryAt names) := by
  induction names with
  | nil =>
      rw [ensureDirectoryInPlace, ensureDirectoryAt, bind_get]
      cases t.get? .root with
      | none => rfl
      | some node => cases node <;> rfl
  | cons name above ih =>
      rw [ensureDirectoryInPlace, ensureDirectoryAt]
      dsimp only
      rw [bind_get]
      cases t.get? ⟨(name :: above).reverse⟩ with
      | none => exact attach_landed name _ (.directory []) ih
      | some node => cases node <;> rfl

theorem insertLeafInPlace_eq (p : AssetPath) (value : α) (t : NodeTree α) :
    insertLeafInPlace p value t = t.landed (t.insertLeaf p value) := by
  rw [insertLeafInPlace, insertLeaf, bind_get]
  cases t.get? p with
  | none =>
      dsimp only
      cases p.names.reverse with
      | nil => rfl
      | cons name above =>
          exact attach_landed name p (.leaf value) (ensureDirectoryInPlace_eq above t)
  | some node => cases node <;> rfl

end NodeTree

/-! ## Calls on a tree in memory -/

/-- A call that adds something to a tree in memory, with the text of a path. -/
inductive Insertion
  | file (path : String) (content : Bytes)
  | directory (path : String)

namespace Insertion

/-- What a call does to the tree in place. -/
def inPlace : Insertion → EStateM InvalidPath MemoryTree Unit
  | file path content =>
    match AssetPath.parse path with
    | .error e => throw e
    | .ok p => NodeTree.insertLeafInPlace p content
  | directory path =>
    match AssetPath.parse path with
    | .error e => throw e
    | .ok p => NodeTree.ensureDirectoryInPlace p.names.reverse

/-- The tree that a call gives, if it succeeds. -/
def insertInto (t : MemoryTree) : Insertion → Except InvalidPath MemoryTree
  | file path content => t.insertFile path content
  | directory path => t.insertDirectory path

theorem inPlace_eq (c : Insertion) (t : MemoryTree) : c.inPlace t = t.landed (c.insertInto t) := by
  cases c with
  | file path content =>
      rw [inPlace, insertInto, MemoryTree.insertFile]
      cases AssetPath.parse path with
      | error e => rfl
      | ok p => exact NodeTree.insertLeafInPlace_eq p content t
  | directory path =>
      rw [inPlace, insertInto, MemoryTree.insertDirectory]
      cases AssetPath.parse path with
      | error e => rfl
      | ok p => exact NodeTree.ensureDirectoryInPlace_eq _ t

end Insertion

namespace MemoryTree

/-- The tree that a call leaves, successful or not. -/
def call (t : MemoryTree) (c : Insertion) : MemoryTree :=
  match c.inPlace t with
  | .ok _ t' => t'
  | .error _ t' => t'

/-- The tree that calls leave, in their order, starting with the empty one. -/
def after (calls : List Insertion) : MemoryTree := calls.foldl call NodeTree.empty

theorem Built.call {t : MemoryTree} (h : t.Built) (c : Insertion) : (t.call c).Built := by
  unfold MemoryTree.call
  rw [c.inPlace_eq]
  cases hok : c.insertInto t with
  | error e => exact h
  | ok t' =>
      cases c with
      | file path content => exact .file h path content hok
      | directory path => exact .directory h path hok

/-- Whatever was called, the tree is one that successful insertions lead to. -/
theorem after_built (calls : List Insertion) : (after calls).Built :=
  List.foldlRecOn calls _ .empty fun _ ht c _ => ht.call c

end MemoryTree

/-- A file, a file below it, a directory that would lead out, and a file where a
directory is. -/
def smallCalls : List Insertion :=
  [.file "a/b" [7], .file "a/b/c" [], .directory "../d", .file "a" []]

-- Only the first of them succeeds.
example : (MemoryTree.after smallCalls).size = 3 ∧
    (MemoryTree.after smallCalls).kind? ⟨[⟨"a", rfl⟩]⟩ = some .directory ∧
    (MemoryTree.after smallCalls).kind? ⟨[⟨"a", rfl⟩, ⟨"b", rfl⟩]⟩ = some .file := by
  decide +kernel

end AssetUnpack
