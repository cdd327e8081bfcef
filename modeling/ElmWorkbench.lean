import ElmWorkbench.Main
import ElmWorkbench.Proofs.CommandLine.Agreement
import ElmWorkbench.Proofs.Edit.BottomUp
import ElmWorkbench.Proofs.Edit.Decoding
import ElmWorkbench.Proofs.Edit.Flat
import ElmWorkbench.Proofs.Edit.Position
import ElmWorkbench.Proofs.Edit.Reading
import ElmWorkbench.Proofs.Edit.Undo
import ElmWorkbench.Proofs.FileSystem.Effect
import ElmWorkbench.Proofs.FileSystem.Loops
import ElmWorkbench.Proofs.FileSystem.Publication
import ElmWorkbench.Proofs.FileSystem.Survival
import ElmWorkbench.Proofs.Project.Form
import ElmWorkbench.Proofs.Project.Layout
import ElmWorkbench.Proofs.Project.Pruning
import ElmWorkbench.Proofs.Sample.Manifest
import ElmWorkbench.Proofs.Session.Command
import ElmWorkbench.Proofs.Session.Damage
import ElmWorkbench.Proofs.Session.Editable
import ElmWorkbench.Proofs.Session.Listing
import ElmWorkbench.Proofs.Session.Refusal
import ElmWorkbench.Proofs.Session.Replacement
import ElmWorkbench.Proofs.Session.Server
import ElmWorkbench.Proofs.Settings.Saving
import ElmWorkbench.Sample.Project
