import PatchReview.Workspace
import PatchReview.Encoding.Base64

/-!
# Recorded workspaces

A workspace written down as a document: files, environment, replies of commands and of the model.
-/

namespace PatchReview.Snapshot

open Fields

variable (v : Json)

def natOf : Nat := (v.int?.getD 0).toNat

/-- A syntax tree written as kind, range and children. The fuel bounds the depth. -/
def tree : Nat → Json → Syntax.Tree
  | 0, _ => .node "" 0 0 []
  | fuel + 1, v =>
    match v with
    | .list (kind :: start :: stop :: rest) =>
      .node (kind.text?.getD "") (natOf start) (natOf stop)
        ((rest.head?.getD .null).items.map (tree fuel))
    | _ => .node "" 0 0 []

def treeDepth : Nat := 2000

def bytes : Bytes :=
  match v with
  | .text s => utf8 s
  | .object fs =>
    match get? fs "b64" with
    | some (.text s) => Base64.decode s
    | _ =>
      match get? fs "text" with
      | some (.text s) => utf8 s
      | _ => []
  | _ => []

def deposit : Deposit :=
  match v with
  | .null => .directory
  | .object fs =>
    match get? fs "link" with
    | some (.text target) => .link target
    | _ =>
      match get? fs "repeat" with
      | some (.list [.text s, .int n]) => .bytes (List.replicate n.toNat (utf8 s)).flatten none
      | _ => .bytes (bytes v) ((get? fs "tree").map (tree treeDepth))
  | _ => .bytes (bytes v) none

def placeAll (w : Workspace) (files : Json) : Workspace :=
  files.fields.foldl (fun w (path, v) => w.place path (deposit v)) w

def commandReply : CommandReply :=
  let paths (key : String) := (v.getD key).items.filterMap Json.text?
  { code := (v.getD "code").int?.getD 0
    out := (v.getD "out").text?.getD ""
    err := (v.getD "err").text?.getD ""
    missing := (v.getD "missing").truthy
    changes := (v.getD "write").fields.map (fun (path, d) => .write path (deposit d))
      ++ (paths "remove").map .remove ++ (paths "mkdir").map .makeDirectory
      ++ (paths "rmtree").map .removeTree }

def commandReplies : Json → List CommandReply
  | .list vs => vs.map commandReply
  | v => [commandReply v]

def modelReply : Json → Chat.Reply
  | .text s => .message s []
  | v =>
    match v.get? "raise" with
    | some (.list (kind :: reason :: _)) => .failure (kind.text?.getD "") (reason.text?.getD "")
    | _ => .message ((v.get? "content").getD "") (v.getD "tool_calls").items

def textFields : Pairs := v.fields.filterMap fun (k, v) => v.text?.map ((k, ·))

def read (home : Trail) (v : Json) : Workspace :=
  let w : Workspace :=
    { files := ⟨(List.range home.length).map fun n => (home.take (n + 1), .directory)⟩
      cwd := home
      environment := merge [("PATH", "/usr/bin:/bin")] (textFields (v.getD "env"))
      commands := (v.getD "proc").fields.map fun (k, r) => (k, commandReplies r)
      programs := (v.getD "which").items.filterMap Json.text?
      replies := (v.getD "llm").items.map modelReply
      unparsed := (v.getD "no_parser").items.filterMap Json.text? }
  placeAll w (v.getD "files")

end PatchReview.Snapshot
