import SceneScript.Editor.Session
import SceneScript.Main
import SceneScript.Notify.Forest
import SceneScript.Script.Name
import SceneScript.Proofs.Cli.Rewriting
import SceneScript.Proofs.Editor.Building
import SceneScript.Proofs.Editor.Commuting
import SceneScript.Proofs.Editor.Dragging
import SceneScript.Proofs.Editor.Gestures
import SceneScript.Proofs.Editor.LocalEdits
import SceneScript.Proofs.Editor.ReadOnly
import SceneScript.Proofs.Editor.Revisions
import SceneScript.Proofs.Editor.Growing
import SceneScript.Proofs.Json.Trees
import SceneScript.Proofs.Script.Parts
import SceneScript.Proofs.Script.Spelling
import SceneScript.Proofs.Json.Pieces
import SceneScript.Proofs.Json.Members
import SceneScript.Proofs.Script.DocumentShapes
import SceneScript.Proofs.Editor.Recounting
import SceneScript.Proofs.Notify.Counting
import SceneScript.Proofs.Notify.Relays
import SceneScript.Proofs.Editor.Wiring
import SceneScript.Proofs.Editor.Links
import SceneScript.Proofs.Editor.Relinking
import SceneScript.Proofs.Editor.Rewiring
import SceneScript.Proofs.Editor.Moves
import SceneScript.Proofs.Editor.Ownership
import SceneScript.Proofs.Number.Bounds
import SceneScript.Proofs.Number.Overflow
import SceneScript.Proofs.Json.Numerals
import SceneScript.Proofs.Script.Numerals
import SceneScript.Proofs.Script.Rereading
import SceneScript.Proofs.Cli.Checking
import SceneScript.Proofs.Editor.Finite
import SceneScript.Proofs.Cli.Dropping
import SceneScript.Proofs.Notify.Deliveries
import SceneScript.Proofs.Notify.Handles
import SceneScript.Proofs.Editor.Layout
import SceneScript.Proofs.Editor.Highlights
import SceneScript.Proofs.Notify.Visibility
import SceneScript.Proofs.Editor.Filling
import SceneScript.Proofs.Editor.Lighting
import SceneScript.Proofs.Editor.ControlEdits
import SceneScript.Proofs.Editor.NumberFields
import SceneScript.Proofs.Editor.Choices
import SceneScript.Proofs.Editor.Searching
