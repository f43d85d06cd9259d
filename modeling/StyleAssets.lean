import StyleAssets.Main
import StyleAssets.Proofs.Css.Recursion
import StyleAssets.Proofs.Rewrite.Account
import StyleAssets.Proofs.Rewrite.Dangling
import StyleAssets.Proofs.Rewrite.Reparse
import StyleAssets.Proofs.Run.Dumps
import StyleAssets.Proofs.Run.Inputs
import StyleAssets.Proofs.Css.Segmentwise
import StyleAssets.Proofs.Rewrite.InlineData
import StyleAssets.Proofs.Run.Course
import StyleAssets.Proofs.Run.LastText
import StyleAssets.Proofs.Console.Says
import StyleAssets.Proofs.Console.Sheet
import StyleAssets.Proofs.Console.Run
import StyleAssets.Proofs.Console.Flags
import StyleAssets.Proofs.Path.Resolve
import StyleAssets.Proofs.Path.Climb
import StyleAssets.Proofs.Config.Upward
import StyleAssets.Proofs.FileTree.Stylesheets
