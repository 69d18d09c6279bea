import ShellGloss.Main
import ShellGloss.Node.Format
import ShellGloss.Style.Sgr
import ShellGloss.Proofs.CommandSequence
import ShellGloss.Proofs.SpanTiling
import ShellGloss.Proofs.StyledText
import ShellGloss.Proofs.FaithfulNodes
import ShellGloss.Proofs.CommandGrammar
import ShellGloss.Proofs.SpacedLine
import ShellGloss.Proofs.ColourTransparency
import ShellGloss.Proofs.DocumentOrder
import ShellGloss.Proofs.DeadEntries
import ShellGloss.Proofs.CatalogFile
import ShellGloss.Proofs.RunJournal
import ShellGloss.Proofs.CheckedNodes
import ShellGloss.Proofs.QueryReport
import ShellGloss.Proofs.SessionScript
import ShellGloss.Proofs.StagedRun
import ShellGloss.Proofs.TruthfulLog
import ShellGloss.Proofs.LineSeams
import ShellGloss.Proofs.OptionBundles
import ShellGloss.Proofs.TransparentOptions
import ShellGloss.Proofs.SpanSelection
import ShellGloss.Proofs.ArgumentGrammar
import ShellGloss.Proofs.CatalogFaults
import ShellGloss.Proofs.JsonCourse
import ShellGloss.Proofs.NormalPaths
import ShellGloss.Proofs.HelpLines
import ShellGloss.Proofs.StrippedText
import ShellGloss.Proofs.OptionLabels
