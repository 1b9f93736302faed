import MemberLift.Program
import MemberLift.Main
import MemberLift.Proofs.Lexer.Filler
import MemberLift.Proofs.Lexer.Lossless
import MemberLift.Proofs.Alphabet
import MemberLift.Proofs.Lexer.Ahead
import MemberLift.Proofs.Lexer.Reads
import MemberLift.Proofs.Lexer.Respacing
import MemberLift.Proofs.Declaration.Recast
import MemberLift.Proofs.Text.Endings
import MemberLift.Proofs.Wrapper.Recast
import MemberLift.Proofs.Wrapper.Respacing
import MemberLift.Proofs.Lexer.Endings
import MemberLift.Proofs.Text.Lines
import MemberLift.Proofs.Header.Scan.Endings
import MemberLift.Proofs.Header.Endings
import MemberLift.Proofs.Header.Scan.Blocks
import MemberLift.Proofs.Header.Scan.Front
import MemberLift.Proofs.Header.Again
import MemberLift.Proofs.Header.Stale
import MemberLift.Proofs.Text.Utf8
import MemberLift.Proofs.Disk.Names
import MemberLift.Proofs.Disk.Confined
import MemberLift.Proofs.Disk.Backup
import MemberLift.Proofs.Run.Completed
import MemberLift.Proofs.Run.DryRun
import MemberLift.Proofs.Program.Check
import MemberLift.Proofs.Disk.Action
import MemberLift.Proofs.Run.Step
import MemberLift.Proofs.Run.Loop
import MemberLift.Proofs.Disk.Unkept
import MemberLift.Proofs.Run.Stopped
import MemberLift.Proofs.Run.Tabs
import MemberLift.Proofs.Header.Docs
import MemberLift.Proofs.Header.NewBlock
import MemberLift.Proofs.Wrapper.Docs
import MemberLift.Proofs.Declaration.Account
import MemberLift.Proofs.Declaration.Declarator
import MemberLift.Proofs.Declaration.Joints
import MemberLift.Proofs.Wrapper.Forwarding
import MemberLift.Proofs.Declaration.Trailing
import MemberLift.Proofs.Declaration.Constraint
import MemberLift.Proofs.Declaration.TypeNames
import MemberLift.Proofs.Wrapper.Signature
import MemberLift.Proofs.Header.Scan.Sentinels
import MemberLift.Proofs.Header.Scan.Functions
import MemberLift.Proofs.Header.Scan.Lookahead
import MemberLift.Proofs.Header.Scan.Comments
import MemberLift.Proofs.Header.Scan.ClassHeads
import MemberLift.Proofs.Token.Brackets
import MemberLift.Proofs.Token.Angles
import MemberLift.Proofs.Token.Places
import MemberLift.Proofs.Token.Splitting
import MemberLift.Proofs.Declaration.Default
import MemberLift.Proofs.Lexer.Names
import MemberLift.Proofs.Wrapper.Settled
import MemberLift.Proofs.Tabs.Columns
import MemberLift.Proofs.Tabs.Utf8
import MemberLift.Proofs.Disk.Search
import MemberLift.Proofs.Checked.Declaration
import MemberLift.Proofs.Checked.Scan
import MemberLift.Proofs.Checked.Tabs
