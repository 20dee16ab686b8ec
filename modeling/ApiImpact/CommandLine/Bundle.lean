import ApiImpact.CommandLine.Workspace

/-!
A workspace as one JSON document: `files` with their texts by path, the paths in `deny` that may not be
accessed, and under `git` the texts in `blobs` by revision and path, the paths that are `changed`, and
why the history cannot be asked, as `fail`.
-/

namespace ApiImpact

namespace Json

/-- The texts among the members of an object, in the order of their names. -/
def sortedTexts (value : Json) : List (String × String) :=
  let texts := (value.asObject?.getD []).filterMap fun (name, text) =>
    text.asString?.map fun text => (name, text)
  texts.mergeSort fun a b => a.1 ≤ b.1

/-- The texts among the items of the array `name`. -/
def textsAt (value : Json) (name : String) : List String :=
  ((value.get? name).bind asArray?).getD [] |>.filterMap asString?

end Json

/-- The files in `bundle`. Of two paths for one file the later one counts. -/
def FileTree.ofJson (bundle : Json) : FileTree :=
  let files := (bundle.get? "files").elim [] Json.sortedTexts
  let tree := files.foldl (fun tree (path, text) => tree.insert (.ofString path) text) {}
  (bundle.textsAt "deny").foldl (fun tree path => tree.deny (.ofString path)) tree

/-- The history in the member `git` of a bundle. -/
def History.ofJson (git : Json) : History :=
  let revisions := ((git.get? "blobs").bind Json.asObject?).getD []
  { texts := revisions.flatMap fun (revision, files) =>
      files.sortedTexts.map fun (path, text) => ((revision, path), text)
    changed := git.textsAt "changed"
    failure := (git.get? "fail").bind Json.asString? }

/-- The workspace in `bundle`. -/
def Workspace.ofJson (bundle : Json) : Workspace :=
  { tree := .ofJson bundle
    history := (bundle.get? "git").elim {} History.ofJson }

end ApiImpact
